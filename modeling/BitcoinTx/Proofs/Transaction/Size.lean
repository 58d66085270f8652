import BitcoinTx.Transaction.Size
import Mathlib.Algebra.Order.Floor.Div
import Mathlib.Tactic.Lemma

/-! The sizes of transactions, which are computed without writing them, are the lengths of their written
forms. -/

namespace BitcoinTx

lemma length_flatMap_eq_sumOf {α : Type} {write : α → Bytes} {size : α → Nat}
    (h : ∀ a, (write a).length = size a) (l : List α) : (l.flatMap write).length = sumOf size l := by
  induction l with
  | nil => rfl
  | cons a l ih =>
    rw [List.flatMap_cons, List.length_append, h, ih]
    rfl

namespace Input

variable (i : Input)

lemma length_encode : i.encode.length = i.baseSize := by
  simp only [encode, List.length_append, Outpoint.length_encode, length_varBytes, length_leBytes]
  rfl

lemma length_encodeWitness : i.encodeWitness.length = i.witnessSize := by
  rw [encodeWitness, List.length_append, CompactSize.length_encode,
    length_flatMap_eq_sumOf length_varBytes]
  rfl

end Input

namespace Transaction

variable (tx : Transaction)

lemma length_encodeInputs : tx.encodeInputs.length =
    CompactSize.size tx.inputs.length + sumOf Input.baseSize tx.inputs := by
  rw [encodeInputs, List.length_append, CompactSize.length_encode,
    length_flatMap_eq_sumOf Input.length_encode]

lemma length_encodeOutputs : tx.encodeOutputs.length =
    CompactSize.size tx.outputs.length + sumOf Output.size tx.outputs := by
  rw [encodeOutputs, List.length_append, CompactSize.length_encode,
    length_flatMap_eq_sumOf Output.length_encode]

lemma length_encodeBase : tx.encodeBase.length = tx.baseSize := by
  simp only [encodeBase, List.length_append, length_leBytes, length_encodeInputs,
    length_encodeOutputs, baseSize]
  omega

lemma length_encodeWitness :
    tx.encodeWitness.length = tx.baseSize + sumOf Input.witnessSize tx.inputs + 2 := by
  simp only [encodeWitness, List.length_append, List.length_cons, List.length_nil, length_leBytes,
    length_encodeInputs, length_encodeOutputs, length_flatMap_eq_sumOf Input.length_encodeWitness,
    baseSize]
  omega

lemma length_encode : tx.encode.length = tx.encodedSize := by
  rw [encode, encodedSize, size, witnessSize]
  cases tx.hasWitness with
  | true => exact tx.length_encodeWitness
  | false => exact tx.length_encodeBase

lemma weight_eq : tx.weight = 3 * tx.baseSize + tx.size := by
  rw [weight, weightOf, size]
  omega

/-- Marker and flag are the two bytes that a size leaves out. They, and rounding up, put the virtual size
of the relay rules one or two above the other one. -/
theorem sizes_eq_lengths :
    tx.baseSize = tx.encodeBase.length ∧ tx.encodedSize = tx.encode.length ∧
      tx.weight = 3 * tx.baseSize + tx.size ∧
      tx.relayVirtualSize = (3 * tx.encodeBase.length + tx.encode.length) ⌈/⌉ 4 ∧
      if tx.hasWitness then
        tx.encodedSize = tx.baseSize + tx.witnessSize + 2 ∧
          tx.virtualSize + 1 ≤ tx.relayVirtualSize ∧ tx.relayVirtualSize ≤ tx.virtualSize + 2
      else
        tx.witnessSize = 0 ∧ tx.virtualSize = tx.size ∧ tx.relayVirtualSize = tx.size := by
  have hrelay : tx.relayVirtualSize = (3 * tx.encodeBase.length + tx.encode.length) ⌈/⌉ 4 := by
    rw [Nat.ceilDiv_eq_add_pred_div, length_encodeBase, length_encode]
    rfl
  refine ⟨tx.length_encodeBase.symm, tx.length_encode.symm, tx.weight_eq, hrelay, ?_⟩
  have hweight : tx.weight = 4 * tx.baseSize + tx.witnessSize := rfl
  rw [virtualSize, virtualSizeOf, hweight, relayVirtualSize, encodedSize, size]
  split
  · omega
  · next hnone =>
    have hzero : tx.witnessSize = 0 := if_neg hnone
    omega

end Transaction

end BitcoinTx
