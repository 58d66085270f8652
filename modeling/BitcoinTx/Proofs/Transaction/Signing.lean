import BitcoinTx.Proofs.Transaction.Bare
import BitcoinTx.Proofs.Transaction.Verification

/-! Signing an input puts signatures over its digest where its template wants them, and changes nothing
else. -/

namespace BitcoinTx

open Outcome

namespace Transaction

section

variable {tx : Transaction} {index j : Nat} {f : Input → Input}

lemma bare_modifyInput (hf : ∀ i, (f i).bare = i.bare) :
    (tx.modifyInput index f).bare = tx.bare := by
  simp only [bare, modifyInput, mk.injEq, true_and, and_true]
  exact map_modify fun i _ => hf i

lemma input_modifyInput : (tx.modifyInput index f).input index = (tx.input index).map f := by
  simp only [input, modifyInput, List.getElem?_modify_eq, List.length_modify]
  cases tx.inputs[index]? <;> rfl

lemma input_modifyInput_of_ne (h : index ≠ j) : (tx.modifyInput index f).input j = tx.input j := by
  simp only [input, modifyInput, List.getElem?_modify, h, if_false, List.length_modify]
  cases tx.inputs[j]? <;> rfl

end

variable [Crypto]

def signedVersion (s : SpentOutput) : ScriptVersion :=
  if s.scriptCode = none then .base else .witnessV0

def SignedBy (tx : Transaction) (index : Nat) (signer : Signer) : Prop :=
  ∃ i s d l, tx.input index = .ok i ∧ i.spent = some s ∧
    tx.digestWith tx.midstate (signedVersion s) index signer.hashType = .ok d ∧
    signer.signatures d = .ok l ∧ s.template.unlockingScript l s.redeem = .ok i.unlocking ∧
    (s.scriptCode ≠ none → s.template.witnessStack l s.redeem = .ok i.witness)

variable {tx tx' : Transaction} {index j : Nat} {signer : Signer}

lemma SignedBy.congr (h : tx.SignedBy index signer) (hb : tx'.bare = tx.bare)
    (hi : tx'.input index = tx.input index) : tx'.SignedBy index signer := by
  obtain ⟨i, s, d, l, hi', hs, hd, hl, hu, hw⟩ := h
  refine ⟨i, s, d, l, hi.trans hi', hs, ?_, hl, hu, hw⟩
  rw [midstate_congr hb, digestWith_congr index _ hb, hd]

lemma signLegacy_ok : tx.signLegacy index signer = .ok tx' ↔ ∃ d l s u,
    tx.legacyDigest index signer.hashType = .ok d ∧ signer.signatures d = .ok l ∧
      tx.spent index = .ok s ∧ s.template.unlockingScript l s.redeem = .ok u ∧
      tx.modifyInput index ({ · with unlocking := u, witness := [] }) = tx' := by
  simp only [signLegacy, unlockLegacy, except_bind_ok, mapError_ok, except_pure_ok]
  constructor
  · rintro ⟨d, hd, l, hl, s, hs, u, hu, h⟩
    exact ⟨d, l, s, u, hd, hl, hs, hu, h⟩
  · rintro ⟨d, l, s, u, hd, hl, hs, hu, h⟩
    exact ⟨d, hd, l, hl, s, hs, u, hu, h⟩

lemma signWitness_ok : tx.signWitness index signer = .ok tx' ↔ ∃ d l s w u,
    tx.witnessDigest index signer.hashType = .ok d ∧ signer.signatures d = .ok l ∧
      tx.spent index = .ok s ∧ s.template.witnessStack l s.redeem = .ok w ∧
      s.template.unlockingScript l s.redeem = .ok u ∧
      tx.modifyInput index ({ · with unlocking := u, witness := w }) = tx' := by
  simp only [signWitness, signWitnessWith, unlockWitness, except_bind_ok, mapError_ok,
    except_pure_ok]
  constructor
  · rintro ⟨d, hd, l, hl, s, hs, w, hw, u, hu, h⟩
    exact ⟨d, l, s, w, u, hd, hl, hs, hw, hu, h⟩
  · rintro ⟨d, l, s, w, u, hd, hl, hs, hw, hu, h⟩
    exact ⟨d, hd, l, hl, s, hs, w, hw, u, hu, h⟩

omit [Crypto] in
lemma signingMethod_ok {method : SigningMethod} : tx.signingMethod index signer = .ok method ↔
    ∃ s, tx.spent index = .ok s ∧ (1 < signer.keys.length → s.redeem ≠ none) ∧
      (if s.scriptCode = none then .legacy else .witness) = method := by
  simp only [signingMethod, except_bind_ok, except_unless_bind_ok, except_pure_ok, not_and]

lemma signedBy_modifyInput {s : SpentOutput} {d : Hash256} {l : List KeySignature} {u : Script}
    {w : List Bytes} (hs : tx.spent index = .ok s)
    (hd : tx.digestWith tx.midstate (signedVersion s) index signer.hashType = .ok d)
    (hl : signer.signatures d = .ok l) (hu : s.template.unlockingScript l s.redeem = .ok u)
    (hw : s.scriptCode ≠ none → s.template.witnessStack l s.redeem = .ok w) :
    (tx.modifyInput index ({ · with unlocking := u, witness := w })).SignedBy index signer := by
  obtain ⟨i, hi, hspent⟩ := spent_ok.mp hs
  have hbare : (tx.modifyInput index ({ · with unlocking := u, witness := w })).bare = tx.bare :=
    bare_modifyInput fun _ => rfl
  refine ⟨{ i with unlocking := u, witness := w }, s, d, l, ?_, hspent, ?_, hl, hu, hw⟩
  · rw [input_modifyInput, hi]
    rfl
  · rw [midstate_congr hbare, digestWith_congr index _ hbare, hd]

lemma sign_ok (h : tx.sign index signer = .ok tx') :
    tx'.SignedBy index signer ∧ tx'.bare = tx.bare ∧ ∀ j, index ≠ j → tx'.input j = tx.input j := by
  obtain ⟨method, hm, h⟩ := except_bind_ok.mp h
  obtain ⟨s, hs, -, hmethod⟩ := signingMethod_ok.mp hm
  by_cases hcode : s.scriptCode = none
  · rw [if_pos hcode] at hmethod
    subst hmethod
    obtain ⟨d, l, s', u, hd, hl, hs', hu, rfl⟩ := signLegacy_ok.mp h
    obtain rfl := Except.ok.inj (hs.symm.trans hs')
    refine ⟨signedBy_modifyInput hs ?_ hl hu fun hne => absurd hcode hne,
      bare_modifyInput fun _ => rfl, fun j hj => input_modifyInput_of_ne hj⟩
    rwa [signedVersion, if_pos hcode]
  · rw [if_neg hcode] at hmethod
    subst hmethod
    obtain ⟨d, l, s', w, u, hd, hl, hs', hw, hu, rfl⟩ := signWitness_ok.mp h
    obtain rfl := Except.ok.inj (hs.symm.trans hs')
    refine ⟨signedBy_modifyInput hs ?_ hl hu fun _ => hw, bare_modifyInput fun _ => rfl,
      fun j hj => input_modifyInput_of_ne hj⟩
    rwa [signedVersion, if_neg hcode]

end Transaction

end BitcoinTx
