import BitcoinTx.Proofs.Transaction.Codec
import BitcoinTx.Transaction.LegacyDigest

/-! What signatures outside witnesses cover is a changed copy of the transaction, written without
witness data, and the hash type. -/

namespace BitcoinTx

namespace Transaction

section

variable (tx : Transaction) (index : Nat) (code : Script) (t : HashType)

def copyInput (k : Nat) (i : Input) : Input :=
  if k = index then { i with unlocking := code }
  else { i with unlocking := .empty, sequence := if t.base = .all then i.sequence else 0 }

def copyInputs : List Input :=
  let inputs := tx.inputs.mapIdx (copyInput index code t)
  if t.anyoneCanPay then inputs[index]?.toList else inputs

def copyOutputs : List Output :=
  match t.base with
  | .all => tx.outputs
  | .none => []
  | .single => (tx.outputs.take (index + 1)).mapIdx fun k o => if k < index then blankOutput else o

def signedCopy : Transaction :=
  { tx with inputs := tx.copyInputs index code t, outputs := tx.copyOutputs index t }

end

variable {tx : Transaction} {index : Nat} {code : Script} {t : HashType}

lemma encode_copyInput (k : Nat) (i : Input) : (copyInput index code t k i).encode =
    if k = index then encodeSigned i code else encodeUnsigned t i := by
  by_cases h : k = index
  · rw [copyInput, if_pos h, if_pos h]
    rfl
  · rw [copyInput, if_neg h, if_neg h]
    rfl

lemma encodeForSigning_eq (position : Nat) (l : List Input) :
    encodeForSigning t index code position l =
      (l.mapIdx fun k => copyInput index code t (position + k)).flatMap Input.encode := by
  induction l generalizing position with
  | nil => rfl
  | cons i l ih =>
    have htail : (fun k => copyInput index code t (position + (k + 1))) =
        fun k => copyInput index code t (position + 1 + k) := by
      funext k
      rw [Nat.add_right_comm, Nat.add_assoc]
    rw [encodeForSigning, ih, List.mapIdx_cons, List.flatMap_cons, htail, encode_copyInput]
    rfl

lemma copyInputs_of_anyoneCanPay (h : index < tx.inputs.length) (hpay : t.anyoneCanPay = true) :
    tx.copyInputs index code t = [{ tx.inputs[index] with unlocking := code }] := by
  simp [copyInputs, hpay, h, copyInput]

lemma copyInputs_of_all_inputs (hpay : t.anyoneCanPay = false) :
    tx.copyInputs index code t = tx.inputs.mapIdx (copyInput index code t) := by
  simp [copyInputs, hpay]

lemma encodeInputs_signedCopy (h : index < tx.inputs.length) :
    (tx.signedCopy index code t).encodeInputs = tx.legacyInputs index code t := by
  cases hpay : t.anyoneCanPay with
  | true =>
    have hi := List.getElem?_eq_getElem h
    simp only [encodeInputs, signedCopy, copyInputs_of_anyoneCanPay h hpay, legacyInputs, hpay, hi,
      if_true, Option.toList_some, List.flatMap_singleton, List.length_singleton]
    rfl
  | false =>
    simp only [encodeInputs, signedCopy, copyInputs_of_all_inputs hpay, legacyInputs, hpay,
      encodeForSigning_eq, Nat.zero_add, Bool.false_eq_true, if_false, List.length_mapIdx]

lemma copyOutputs_of_single (h : index < tx.outputs.length) (hbase : t.base = .single) :
    tx.copyOutputs index t = List.replicate index blankOutput ++ [tx.outputs[index]] := by
  simp only [copyOutputs, hbase]
  apply List.ext_getElem
  · simp
    omega
  · intro k hk hk'
    simp only [List.length_append, List.length_replicate, List.length_singleton] at hk'
    by_cases hlt : k < index
    · simp [hlt]
    · obtain rfl : k = index := by omega
      simp

lemma encodeOutputs_signedCopy (h : t.base = .single → index < tx.outputs.length) :
    (tx.signedCopy index code t).encodeOutputs = tx.legacyOutputs index t := by
  cases hbase : t.base with
  | all => simp only [encodeOutputs, signedCopy, copyOutputs, legacyOutputs, hbase]
  | none =>
    simp only [encodeOutputs, signedCopy, copyOutputs, legacyOutputs, hbase]
    rfl
  | single =>
    have ho := List.getElem?_eq_getElem (h hbase)
    simp only [encodeOutputs, signedCopy, copyOutputs_of_single (h hbase) hbase, legacyOutputs, hbase,
      ho, Option.toList_some, List.flatMap_append, List.flatMap_singleton, List.flatMap_replicate,
      List.length_append, List.length_replicate, List.length_singleton]
    rw [List.append_assoc]

theorem legacyPreimage_eq_encodeBase (hi : index < tx.inputs.length)
    (ho : t.base = .single → index < tx.outputs.length) : tx.legacyPreimage index code t =
      (tx.signedCopy index code t).encodeBase ++ leBytes 4 t.word.toNat := by
  rw [legacyPreimage, encodeBase, encodeInputs_signedCopy hi, encodeOutputs_signedCopy ho]
  rfl

end Transaction

def pairedSpend : Transaction :=
  { mixedSpend with outputs := mixedSpend.outputs ++ [⟨50, ⟨[Opcode.one]⟩⟩] }

theorem legacyPreimage_eq_encodeBase_pairedSpend :
    (⟨3⟩ : HashType).base = .single ∧ 1 < pairedSpend.inputs.length ∧ 1 < pairedSpend.outputs.length ∧
      pairedSpend.legacyPreimage 1 ⟨[Opcode.dup]⟩ ⟨3⟩ =
        (pairedSpend.signedCopy 1 ⟨[Opcode.dup]⟩ ⟨3⟩).encodeBase ++ leBytes 4 3 :=
  ⟨by decide, by decide, by decide,
    Transaction.legacyPreimage_eq_encodeBase (by decide) fun _ => by decide⟩

end BitcoinTx
