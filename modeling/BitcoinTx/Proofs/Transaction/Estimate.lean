import BitcoinTx.Proofs.Script.PushForms
import BitcoinTx.Proofs.Transaction.Spending
import BitcoinTx.Proofs.Wire.ReadBack
import BitcoinTx.Transaction.Estimate

/-! The estimate of a transaction bounds its virtual size, when its inputs are signed with one compressed key
each and have a witness only for a witness program. -/

namespace BitcoinTx

open Instruction Outcome

section

variable {m n : Nat}

lemma varBytesSize_mono (h : m ≤ n) : varBytesSize m ≤ varBytesSize n :=
  Nat.add_le_add (CompactSize.size_mono h) h

lemma Input.sizeWith_mono (h : m ≤ n) : Input.sizeWith m ≤ Input.sizeWith n :=
  Nat.add_le_add_right (Nat.add_le_add_left (varBytesSize_mono h) _) _

lemma sumOf_le_sumOf {α : Type} {f g : α → Nat} {l : List α} (h : ∀ a ∈ l, f a ≤ g a) :
    sumOf f l ≤ sumOf g l := by
  induction l with
  | nil => exact Nat.le_refl _
  | cons a l ih =>
    obtain ⟨ha, hl⟩ := List.forall_mem_cons.mp h
    exact Nat.add_le_add ha (ih hl)

end

/-- The input is no larger than its estimate, which counts a witness only for a witness program. -/
structure Input.WithinEstimate (i : Input) : Prop where
  base : i.baseSize ≤ i.estimateBase
  witness : i.witnessSize ≤ i.estimateWitness
  spends : i.hasWitness = true → i.spendsWitness = true

namespace Input

variable {i : Input}

lemma withinEstimate_of_unlocking (h : i.spendsWitness = false) (hw : i.witness = [])
    (hu : i.unlocking.size ≤ keyUnlockingSize) : i.WithinEstimate where
  base := by
    rw [baseSize, estimateBase, h]
    exact sizeWith_mono hu
  witness := by
    rw [witnessSize, estimateWitness, h, hw]
    exact Nat.le_refl 1
  spends h := by
    rw [hasWitness, hw] at h
    cases h

lemma withinEstimate_of_witness (h : i.spendsWitness = true) (hu : i.unlocking = .empty)
    (hw : i.witnessSize ≤ keyWitnessSize) : i.WithinEstimate where
  base := by
    rw [baseSize, estimateBase, h, hu]
    exact Nat.le_refl _
  witness := by
    rw [estimateWitness, h]
    exact hw
  spends _ := h

end Input

namespace Transaction

variable {tx tx' : Transaction}

lemma virtualSize_le_estimateSize (h : ∀ i ∈ tx.inputs, i.WithinEstimate) :
    tx.virtualSize ≤ tx.estimateSize := by
  have hbase : tx.baseSize ≤ tx.estimateBase := by
    have hsum := sumOf_le_sumOf fun i hi => (h i hi).base
    rw [baseSize, estimateBase]
    omega
  have hwitness : tx.witnessSize ≤ tx.estimateWitness := by
    rw [witnessSize]
    split
    · next hw =>
      obtain ⟨i, hi, hiw⟩ := List.any_eq_true.mp hw
      rw [estimateWitness, if_pos (List.any_eq_true.mpr ⟨i, hi, (h i hi).spends hiw⟩)]
      exact sumOf_le_sumOf fun i hi => (h i hi).witness
    · exact Nat.zero_le _
  apply Nat.div_le_div_right
  rw [weight, weightOf, weightOf]
  omega

lemma estimateSize_bare (tx : Transaction) : tx.bare.estimateSize = tx.estimateSize := by
  simp only [estimateSize, estimateBase, estimateWitness, bare, List.length_map, List.any_map, sumOf,
    List.foldr_map]
  rfl

lemma estimateSize_le_of_outputs (hin : tx.inputs = tx'.inputs)
    (hlen : tx.outputs.length ≤ tx'.outputs.length)
    (hout : sumOf Output.size tx.outputs ≤ sumOf Output.size tx'.outputs) :
    tx.estimateSize ≤ tx'.estimateSize := by
  have hcount := CompactSize.size_mono hlen
  apply Nat.div_le_div_right
  rw [weightOf, weightOf, estimateBase, estimateBase, estimateWitness, estimateWitness, hin]
  omega

end Transaction

section

variable [Crypto] {signer : Signer} {d : Hash256} {k : SecretKey} {s : KeySignature}

namespace Signer

lemma length_key_of_compressed (hc : signer.compressed = true) (h : signer.signWith d k = .ok s) :
    s.key.length = compressedKeySize := by
  obtain ⟨sig, -, rfl⟩ := signWith_ok.mp h
  rw [hc]
  exact (Crypto.compressed k.publicKey).property

lemma size_unlocking_le (hc : signer.compressed = true) (h : signer.signWith d k = .ok s) :
    Script.size ⟨encodeAll ([s.signature, s.key].map pushing)⟩ ≤ keyUnlockingSize := by
  have hkey := length_key_of_compressed hc h
  have hsig : s.signature.length ≤ maxSignatureSize := length_signature_le h
  have hsize := size_pushing_of_le (Nat.le_trans hsig (by decide : maxSignatureSize ≤ 75))
  have hsize' := size_pushing_of_le (hkey ▸ by decide : s.key.length ≤ 75)
  have hlength : Script.size ⟨encodeAll ([s.signature, s.key].map pushing)⟩ =
      (pushing s.signature).size + (pushing s.key).size := by
    simp [Script.size, encodeAll, size]
  rw [keyUnlockingSize]
  omega

lemma witnessSize_le (hc : signer.compressed = true) (h : signer.signWith d k = .ok s) {i : Input}
    (hi : i.witness = [s.signature, s.key]) : i.witnessSize ≤ keyWitnessSize := by
  have hkey := length_key_of_compressed hc h
  have hsig : s.signature.length ≤ maxSignatureSize := length_signature_le h
  have hsize := varBytesSize_mono hsig
  have hsum : i.witnessSize = 1 + (varBytesSize s.signature.length + varBytesSize s.key.length) := by
    rw [Input.witnessSize, hi]
    rfl
  have hmax : varBytesSize maxSignatureSize = 1 + maxSignatureSize := rfl
  have hkey' : varBytesSize compressedKeySize = 1 + compressedKeySize := rfl
  rw [hsum, hkey, keyWitnessSize]
  omega

end Signer

namespace Template

variable {t : Template} {l : List KeySignature} {redeem : Option Script} {w : List Bytes}

lemma version_of_witnessStack (h : t.witnessStack l redeem = .ok w) (hw : w ≠ []) :
    t.version = .witnessV0 := by
  cases t with
  | p2pkh _ | p2sh _ => exact absurd (Except.ok.inj h).symm hw
  | p2wpkh _ | p2wsh _ => rfl

end Template

namespace Transaction

variable {tx tx' : Transaction} {index : Nat} {i : Input} {coin : Coin} {redeem : Option Script}

def SpendsWitnesses (tx : Transaction) : Prop :=
  ∀ i ∈ tx.inputs, i.hasWitness = true → i.spendsWitness = true

omit [Crypto] in
lemma spendsWitnesses_bare (tx : Transaction) : tx.bare.SpendsWitnesses := by
  intro i hi hw
  obtain ⟨j, -, rfl⟩ := List.mem_map.mp hi
  cases hw

lemma exists_sign_eq (h : tx.sign index signer = .ok tx') : ∃ s u w, tx.spent index = .ok s ∧
    (w ≠ [] → s.version = .witnessV0) ∧
      tx' = tx.modifyInput index ({ · with unlocking := u, witness := w }) := by
  obtain ⟨method, -, h⟩ := except_bind_ok.mp h
  cases method with
  | legacy =>
    obtain ⟨d, l, s, u, -, -, hs, -, rfl⟩ := signLegacy_ok.mp h
    exact ⟨s, u, [], hs, fun hw => absurd rfl hw, rfl⟩
  | witness =>
    obtain ⟨d, l, s, w, u, -, -, hs, hw, -, rfl⟩ := signWitness_ok.mp h
    exact ⟨s, u, w, hs, Template.version_of_witnessStack hw, rfl⟩

lemma SpendsWitnesses.sign (htx : tx.SpendsWitnesses) (h : tx.sign index signer = .ok tx') :
    tx'.SpendsWitnesses := by
  obtain ⟨s, u, w, hs, hw, rfl⟩ := exists_sign_eq h
  obtain ⟨i, hi, hspent⟩ := spent_ok.mp hs
  intro j hj hwitness
  obtain ⟨k, hk⟩ := List.mem_iff_getElem?.mp hj
  rw [modifyInput, List.getElem?_modify] at hk
  obtain ⟨j, hjk, rfl⟩ := Option.map_eq_some_iff.mp hk
  by_cases hindex : index = k
  · subst hindex
    rw [input, hjk] at hi
    obtain rfl := Except.ok.inj hi
    simp only [if_true, Input.hasWitness, Input.spendsWitness, hspent] at hwitness ⊢
    exact decide_eq_true (hw (by simpa using hwitness))
  · simp only [hindex, if_false] at hwitness ⊢
    exact htx j (List.mem_of_getElem? hjk) hwitness

lemma SignedBy.withinEstimate (h : tx.SignedBy index signer) (hi : tx.input index = .ok i)
    {s : SpentOutput} (hs : i.spent = some s) (hcoin : SpentOutput.ofCoin coin redeem = .ok s)
    (hkind : s.template.kind = .p2pkh ∨ s.template.kind = .p2wpkh) (hc : signer.compressed = true)
    (hspends : i.hasWitness = true → i.spendsWitness = true) : i.WithinEstimate := by
  obtain ⟨i', s', d, l, hi', hs', -, hl, hu, hw⟩ := h
  obtain rfl := Except.ok.inj (hi.symm.trans hi')
  obtain rfl := Option.some.inj (hs.symm.trans hs')
  obtain ⟨raw, t, locking, code, -, -, -, hcode, rfl⟩ := SpentOutput.ofCoin_ok.mp hcoin
  have hversion : i.spendsWitness = decide (t.version = .witnessV0) := by
    rw [Input.spendsWitness, hs]
    rfl
  cases t with
  | p2pkh =>
    obtain ⟨ks, rfl, hunlocking⟩ := Template.unlockingScript_p2pkh hu
    obtain ⟨k, hk⟩ := Signer.exists_signWith hl (List.mem_singleton_self ks)
    -- signing says nothing of a witness here, so it is the whole run that keeps one away
    have hwitness : i.witness = [] := by
      by_contra hne
      cases hversion.symm.trans (hspends (by simpa [Input.hasWitness] using hne))
    refine Input.withinEstimate_of_unlocking hversion hwitness ?_
    rw [hunlocking]
    exact Signer.size_unlocking_le hc hk
  | p2wpkh =>
    have hcode : code ≠ none := fun hnone => by
      cases (Template.scriptCode_eq_none_iff hcode).mp hnone
    obtain ⟨ks, rfl, hwitness⟩ := Template.witnessStack_p2wpkh (hw hcode)
    obtain ⟨k, hk⟩ := Signer.exists_signWith hl (List.mem_singleton_self ks)
    exact Input.withinEstimate_of_witness hversion (Except.ok.inj hu).symm
      (Signer.witnessSize_le hc hk hwitness)
  | p2sh | p2wsh => simp [Template.kind] at hkind

end Transaction

end

end BitcoinTx
