import BitcoinTx.Proofs.Eval.Outcome
import BitcoinTx.Transaction.Verification
import Mathlib.Tactic.Lemma

/-! What signatures cover does not depend on unlocking scripts and witnesses: the digests of a
transaction are those of the transaction without them. -/

namespace BitcoinTx

open Outcome

def Input.bare (i : Input) : Input := { i with unlocking := .empty, witness := [] }

lemma map_modify {α β : Type} {l : List α} {index : Nat} {f : α → α} {g : α → β}
    (h : ∀ a, l[index]? = some a → g (f a) = g a) : (l.modify index f).map g = l.map g := by
  apply List.ext_getElem?
  intro k
  simp only [List.getElem?_map, List.getElem?_modify]
  cases hl : l[k]? with
  | none => rfl
  | some a =>
    by_cases hk : index = k
    · simp [hk, h a (hk ▸ hl)]
    · simp [hk]

namespace Transaction

def bare (tx : Transaction) : Transaction := { tx with inputs := tx.inputs.map Input.bare }

variable (tx : Transaction) (index : Nat) (t : HashType)

lemma input_bare : tx.bare.input index = (tx.input index).map Input.bare := by
  simp only [input, bare, List.getElem?_map, List.length_map]
  cases tx.inputs[index]? <;> rfl

@[simp] lemma spent_bare : tx.bare.spent index = tx.spent index := by
  rw [spent, input_bare, spent]
  cases tx.input index <;> rfl

section

variable {tx tx' : Transaction} (index : Nat)

lemma spent_congr (h : tx'.bare = tx.bare) : tx'.spent index = tx.spent index := by
  rw [← spent_bare, h, spent_bare]

lemma input_congr (h : tx'.bare = tx.bare) :
    (∃ e, tx'.input index = .error e ∧ tx.input index = .error e) ∨
      ∃ i' i, tx'.input index = .ok i' ∧ tx.input index = .ok i ∧ i'.bare = i.bare := by
  have hinput : (tx'.input index).map Input.bare = (tx.input index).map Input.bare := by
    rw [← input_bare, h, input_bare]
  cases hi : tx.input index with
  | error e =>
    cases hi' : tx'.input index with
    | error e' =>
      rw [hi, hi'] at hinput
      exact .inl ⟨e', rfl, hinput.symm⟩
    | ok i' =>
      rw [hi, hi'] at hinput
      cases hinput
  | ok i =>
    rw [hi] at hinput
    obtain ⟨i', hi', hb⟩ := except_map_ok.mp hinput
    exact .inr ⟨i', i, hi', rfl, hb⟩

end

lemma encodeForSigning_bare (code : Script) (position : Nat) (l : List Input) :
    encodeForSigning t index code position (l.map Input.bare) =
      encodeForSigning t index code position l := by
  induction l generalizing position with
  | nil => rfl
  | cons i l ih =>
    rw [List.map_cons, encodeForSigning, encodeForSigning, ih]
    rfl

lemma legacyPreimage_bare (code : Script) :
    tx.bare.legacyPreimage index code t = tx.legacyPreimage index code t := by
  have hinputs : tx.bare.legacyInputs index code t = tx.legacyInputs index code t := by
    simp only [legacyInputs, bare, List.getElem?_map, List.length_map, encodeForSigning_bare]
    cases tx.inputs[index]? <;> rfl
  rw [legacyPreimage, hinputs]
  rfl

variable [Crypto]

lemma legacyDigest_bare : tx.bare.legacyDigest index t = tx.legacyDigest index t := by
  simp only [legacyDigest, spent_bare, legacyPreimage_bare]
  rfl

@[simp] lemma midstate_bare : tx.bare.midstate = tx.midstate := by
  simp only [midstate, encodePrevouts, encodeSequences, bare, List.flatMap_map]
  rfl

lemma witnessDigestWith_bare (mid : Midstate) :
    tx.bare.witnessDigestWith mid index t = tx.witnessDigestWith mid index t := by
  simp only [witnessDigestWith, witnessPreimageWith, spent_bare, input_bare]
  cases tx.input index <;> rfl

variable {tx} {tx' : Transaction}

/-- Signing other inputs, or this one again, does not change what is signed. -/
lemma digestWith_congr (h : tx'.bare = tx.bare) (mid : Midstate) (v : ScriptVersion) :
    digestWith mid tx' v index t = digestWith mid tx v index t := by
  cases v with
  | base =>
    rw [digestWith, digestWith, ← legacyDigest_bare, h, legacyDigest_bare]
  | witnessV0 =>
    rw [digestWith, digestWith, ← witnessDigestWith_bare, h, witnessDigestWith_bare]

lemma midstate_congr (h : tx'.bare = tx.bare) : tx'.midstate = tx.midstate := by
  rw [← midstate_bare, h, midstate_bare]

variable {index}

lemma midstate_modifyInput {f : Input → Input} (ho : ∀ i, (f i).outpoint = i.outpoint)
    (hs : ∀ i, (f i).sequence = i.sequence) : (tx.modifyInput index f).midstate = tx.midstate := by
  have hprevouts : (tx.modifyInput index f).encodePrevouts = tx.encodePrevouts := by
    rw [encodePrevouts, encodePrevouts, List.flatMap_def, List.flatMap_def, modifyInput]
    exact congrArg _ (map_modify fun i _ => by rw [ho])
  have hsequences : (tx.modifyInput index f).encodeSequences = tx.encodeSequences := by
    rw [encodeSequences, encodeSequences, List.flatMap_def, List.flatMap_def, modifyInput]
    exact congrArg _ (map_modify fun i _ => by rw [hs])
  rw [midstate, midstate, hprevouts, hsequences]
  rfl

end Transaction

end BitcoinTx
