import BitcoinTx.Proofs.Transaction.History

/-! Signing an input touches that input alone: what other inputs sign and verify is as before, and the order
in which inputs are signed does not matter. -/

namespace BitcoinTx

open Outcome TransactionM

lemma Input.spendsWitness_iff {i : Input} :
    i.spendsWitness = true ↔ ∃ s, i.spent = some s ∧ s.version = .witnessV0 := by
  simp only [spendsWitness, Option.any_eq_true, decide_eq_true_eq]

namespace Transaction

def unlocked (tx : Transaction) (index : Nat) (data : Script × List Bytes) : Transaction :=
  tx.modifyInput index ({ · with unlocking := data.1, witness := data.2 })

def settled (tx : Transaction) (index : Nat) :
    Except TransactionError (Script × List Bytes) → Transaction
  | .ok data => tx.unlocked index data
  | .error _ => tx

section

variable {tx : Transaction} {index j : Nat} {r r' : Except TransactionError (Script × List Bytes)}

@[simp] lemma bare_settled : (tx.settled index r).bare = tx.bare := by
  cases r with
  | ok data => exact bare_modifyInput fun _ => rfl
  | error e => rfl

lemma input_settled_of_ne (h : index ≠ j) : (tx.settled index r).input j = tx.input j := by
  cases r with
  | ok data => exact input_modifyInput_of_ne h
  | error e => rfl

lemma settled_comm (h : index ≠ j) :
    (tx.settled index r).settled j r' = (tx.settled j r').settled index r := by
  cases r with
  | ok data =>
    cases r' with
    | ok data' => simp only [settled, unlocked, modifyInput, List.modify_modify_ne _ _ _ h]
    | error e => rfl
  | error e => cases r' <;> rfl

end

variable [Crypto]

def unlockingData (tx : Transaction) (index : Nat) (signer : Signer) :
    Except TransactionError (Script × List Bytes) := do
  match ← tx.signingMethod index signer with
  | .legacy =>
    let l ← signer.signatures (← tx.legacyDigest index signer.hashType)
    let s ← tx.spent index
    return (← (s.template.unlockingScript l s.redeem).mapError .script, [])
  | .witness =>
    let l ← signer.signatures (← tx.witnessDigest index signer.hashType)
    let s ← tx.spent index
    let witness ← (s.template.witnessStack l s.redeem).mapError .script
    return (← (s.template.unlockingScript l s.redeem).mapError .script, witness)

variable {tx tx' : Transaction} {index j : Nat} {signer : Signer}

lemma sign_eq :
    tx.sign index signer = tx.unlocked index <$> tx.unlockingData index signer := by
  rw [sign, unlockingData, map_bind]
  refine bind_congr fun method => ?_
  cases method with
  | legacy => simp only [signLegacy, unlockLegacy, unlocked, map_bind, map_pure]
  | witness =>
    simp only [signWitness, witnessDigest, signWitnessWith, unlockWitness, unlocked, map_bind, map_pure]

lemma unlockingData_congr (h : tx'.bare = tx.bare) :
    tx'.unlockingData index signer = tx.unlockingData index signer := by
  have hspent := spent_congr index h
  have hmethod : tx'.signingMethod index signer = tx.signingMethod index signer := by
    rw [signingMethod, signingMethod, hspent]
  have hlegacy := digestWith_congr index signer.hashType h tx.midstate .base
  have hwitness := digestWith_congr index signer.hashType h tx.midstate .witnessV0
  simp only [digestWith] at hlegacy hwitness
  rw [unlockingData, unlockingData, hmethod, hlegacy, witnessDigest, witnessDigest, midstate_congr h,
    hwitness, hspent]

lemma verifyInput_congr (hb : tx'.bare = tx.bare)
    (hu : ∀ i i' s, tx.input j = .ok i → tx'.input j = .ok i' → i.spent = some s →
      unlockingScript s.version i' = unlockingScript s.version i) :
    tx'.verifyInput j = tx.verifyInput j := by
  have hevaluator (v : ScriptVersion) :
      tx'.evaluatorWith tx.midstate v j = tx.evaluatorWith tx.midstate v j := by
    simp only [evaluatorWith, digestWith_congr j _ hb]
  rw [verifyInput, verifyInput, midstate_congr hb]
  obtain ⟨e, hi', hi⟩ | ⟨i', i, hi', hi, h⟩ := input_congr j hb
  · rw [verifyInputWith, verifyInputWith, hi', hi, except_error_bind, except_error_bind]
  · have ho : i'.outpoint = i.outpoint := (congrArg Input.outpoint h :)
    rw [verifyInputWith, verifyInputWith, hi', hi, spent_congr j hb, except_ok_bind, except_ok_bind]
    cases hs : tx.spent j with
    | error e => rw [except_error_bind, except_error_bind]
    | ok s =>
      obtain ⟨k, hk, hsome⟩ := spent_ok.mp hs
      obtain rfl := Except.ok.inj (hi.symm.trans hk)
      simp only [except_ok_bind, hevaluator, ho, hu i i' s hi hi' hsome]

lemma unlockingData_witness {s : SpentOutput} {data : Script × List Bytes}
    (h : tx.unlockingData index signer = .ok data) (hs : tx.spent index = .ok s)
    (hv : s.version = .witnessV0) : data.1 = .empty := by
  have hempty (l : List KeySignature) : s.template.unlockingScript l s.redeem = .ok .empty := by
    rw [SpentOutput.version] at hv
    cases ht : s.template with
    | p2pkh | p2sh =>
      rw [ht] at hv
      cases hv
    | p2wpkh | p2wsh => rfl
  obtain ⟨method, -, h⟩ := except_bind_ok.mp h
  cases method with
  | legacy =>
    simp only [hs, hempty, except_bind_ok, except_ok_bind, except_pure_ok, mapError_ok, Except.ok.injEq] at h
    obtain ⟨_, -, _, -, _, rfl, rfl⟩ := h
    rfl
  | witness =>
    simp only [hs, hempty, except_bind_ok, except_ok_bind, except_pure_ok, mapError_ok, Except.ok.injEq] at h
    obtain ⟨_, -, _, -, _, -, _, rfl, rfl⟩ := h
    rfl

lemma txid_settled {i : Input} {r : Except TransactionError (Script × List Bytes)}
    (hi : tx.inputs[index]? = some i) (hr : ∀ data, r = .ok data → data.1 = i.unlocking) :
    (tx.settled index r).txid = tx.txid := by
  cases r with
  | ok data =>
    have hinputs : (tx.unlocked index data).encodeInputs = tx.encodeInputs := by
      rw [encodeInputs, encodeInputs, List.flatMap_def, List.flatMap_def, unlocked, modifyInput,
        List.length_modify, map_modify]
      intro a ha
      obtain rfl := Option.some.inj (hi.symm.trans ha)
      simp only [Input.encode, hr data rfl]
    rw [settled, txid, txid, encodeBase, encodeBase, hinputs]
    rfl
  | error e => rfl

end Transaction

namespace CachedTransaction

open Transaction

section

variable [Crypto] {c : CachedTransaction} {i j : Nat} {s t : Signer}

lemma answer_sign (hc : c.Coherent) :
    answer (sign i s) c = (fun _ => ()) <$> c.tx.unlockingData i s := by
  rw [(refines_sign i s).answer_eq hc, answer, updating, sign_eq]
  cases c.tx.unlockingData i s <;> rfl

lemma tx_after_sign (hc : c.Coherent) :
    (after (sign i s) c).tx = c.tx.settled i (c.tx.unlockingData i s) := by
  rw [(refines_sign i s).tx_after hc, after, updating, sign_eq]
  cases c.tx.unlockingData i s <;> rfl

lemma bare_after_sign (hc : c.Coherent) : (after (sign i s) c).tx.bare = c.tx.bare := by
  rw [tx_after_sign hc, bare_settled]

lemma answer_sign_after (hc : c.Coherent) :
    answer (sign j t) (after (sign i s) c) = answer (sign j t) c := by
  have hc' := (refines_sign i s).coherent_after hc
  rw [answer_sign hc', answer_sign hc, unlockingData_congr (bare_after_sign hc)]

lemma tx_after_sign_sign (hc : c.Coherent) :
    (after (sign j t) (after (sign i s) c)).tx =
      (c.tx.settled i (c.tx.unlockingData i s)).settled j (c.tx.unlockingData j t) := by
  have hc' := (refines_sign i s).coherent_after hc
  rw [tx_after_sign hc', unlockingData_congr (bare_after_sign hc), tx_after_sign hc]

lemma answer_verifyInput_after (hc : c.Coherent) (h : i ≠ j) :
    answer (verifyInput j) (after (sign i s) c) = answer (verifyInput j) c := by
  have hc' := (refines_sign i s).coherent_after hc
  rw [(refines_verifyInput j).answer_eq hc', (refines_verifyInput j).answer_eq hc, answer_reading,
    answer_reading]
  apply verifyInput_congr (bare_after_sign hc)
  intro a a' _ ha ha' _
  rw [tx_after_sign hc, input_settled_of_ne h, ha] at ha'
  rw [Except.ok.inj ha']

/-- Signing an input changes its unlocking script and its witness, or nothing when it fails. No other input
verifies differently for it, the order in which two inputs are signed makes no difference, and neither does
signing a witness input without unlocking script to the id. -/
theorem Reached.sign_local (h : Reached c) (hij : i ≠ j) (s t : Signer) :
    ((∃ u w, answer (sign i s) c = .ok () ∧
        (after (sign i s) c).tx = c.tx.modifyInput i ({ · with unlocking := u, witness := w })) ∨
      ∃ e, answer (sign i s) c = .error e ∧ (after (sign i s) c).tx = c.tx) ∧
    answer (verifyInput j) (after (sign i s) c) = answer (verifyInput j) c ∧
    (after (sign j t) (after (sign i s) c)).tx = (after (sign i s) (after (sign j t) c)).tx ∧
    answer (sign i s) (after (sign j t) c) = answer (sign i s) c ∧
    answer (sign j t) (after (sign i s) c) = answer (sign j t) c ∧
    ∀ a, c.tx.inputs[i]? = some a → a.spendsWitness = true → a.unlocking = .empty →
      (after (sign i s) c).tx.txid = c.tx.txid := by
  have hc := h.coherent
  refine ⟨?_, answer_verifyInput_after hc hij, ?_, answer_sign_after hc, answer_sign_after hc, ?_⟩
  · rw [answer_sign hc, tx_after_sign hc]
    cases c.tx.unlockingData i s with
    | ok data => exact .inl ⟨data.1, data.2, rfl, rfl⟩
    | error e => exact .inr ⟨e, rfl, rfl⟩
  · rw [tx_after_sign_sign hc, tx_after_sign_sign hc, settled_comm hij]
  · intro a ha hw hu
    obtain ⟨x, hx, hv⟩ := Input.spendsWitness_iff.mp hw
    have hspent : c.tx.spent i = .ok x := spent_ok.mpr ⟨a, by rw [input, ha], hx⟩
    rw [tx_after_sign hc]
    exact txid_settled ha fun data hdata => (unlockingData_witness hdata hspent hv).trans hu.symm

end

def twinSpend : CachedTransaction :=
  @replay Crypto.bitcoin
    [.addInput { generatorInput with witness := [] },
      .addInput { generatorInput with
        outpoint := ⟨.zero, 1⟩
        witness := []
        spent := some { generatorSpent with template := .p2pkh generatorHash, scriptCode := none } },
      .addOutput ⟨900, ⟨[Opcode.one]⟩⟩]
    .empty

lemma one_in_range : 0 < (FixedBytes.ofNat 32 1).toNat ∧ (FixedBytes.ofNat 32 1).toNat < Secp256k1.n := by
  decide

def signerOne (compressed : Bool) (t : HashType) : Signer where
  keys := [⟨.ofNat 32 1, one_in_range⟩]
  compressed := compressed
  hashType := t

theorem sign_local_twinSpend :
    @Transaction.txid Crypto.bitcoin
        (after (@sign Crypto.bitcoin 0 (signerOne true ⟨0x83⟩)) twinSpend).tx =
      @Transaction.txid Crypto.bitcoin twinSpend.tx ∧
    answer (@verifyInput Crypto.bitcoin 1)
        (after (@sign Crypto.bitcoin 0 (signerOne true ⟨0x83⟩)) twinSpend) =
      answer (@verifyInput Crypto.bitcoin 1) twinSpend ∧
    (after (@sign Crypto.bitcoin 1 (signerOne false ⟨2⟩))
        (after (@sign Crypto.bitcoin 0 (signerOne true ⟨0x83⟩)) twinSpend)).tx =
      (after (@sign Crypto.bitcoin 0 (signerOne true ⟨0x83⟩))
        (after (@sign Crypto.bitcoin 1 (signerOne false ⟨2⟩)) twinSpend)).tx := by
  have h : @Reached Crypto.bitcoin twinSpend :=
    @Reached.replay Crypto.bitcoin _ (@Reached.empty Crypto.bitcoin) _
  obtain ⟨-, hverify, horder, -, -, hid⟩ := @Reached.sign_local Crypto.bitcoin twinSpend 0 1 h
    (by decide) (signerOne true ⟨0x83⟩) (signerOne false ⟨2⟩)
  exact ⟨hid _ rfl rfl rfl, hverify, horder⟩

end CachedTransaction

end BitcoinTx
