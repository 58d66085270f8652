import BitcoinTx.Proofs.Eval.Standard
import BitcoinTx.Transaction.Verification
import Mathlib.Control.Monad.Basic

/-! What the verification of an input checks. -/

namespace BitcoinTx

open Outcome

section

variable [Crypto]

lemma SpentOutput.ofCoin_ok {coin : Coin} {redeem : Option Script} {s : SpentOutput} :
    ofCoin coin redeem = .ok s ↔ ∃ raw t locking code, coin.lockingScript = .ok raw ∧
      Template.ofLockingScript raw = .ok t ∧ t.finalLockingScript redeem = .ok locking ∧
      t.scriptCode redeem = .ok code ∧ s = ⟨coin.value, t, raw, locking, redeem, code⟩ := by
  rw [ofCoin]
  simp only [except_bind_ok]
  constructor
  · rintro ⟨raw, hr, t, ht, locking, hl, code, hc, h⟩
    exact ⟨raw, t, locking, code, hr, ht, hl, hc, (Except.ok.inj h).symm⟩
  · rintro ⟨raw, t, locking, code, hr, ht, hl, hc, rfl⟩
    exact ⟨raw, hr, t, ht, locking, hl, code, hc, rfl⟩

lemma SpentOutput.ofCoin_template {coin : Coin} {redeem : Option Script} {t : Template}
    {s : SpentOutput} (ht : coin.lockingScript = .ok t.lockingScript)
    (h : ofCoin coin redeem = .ok s) : s.template = t ∧
      t.finalLockingScript redeem = .ok s.finalLocking ∧
      t.scriptCode redeem = .ok s.scriptCode ∧ s.redeem = redeem := by
  obtain ⟨raw, t', locking, code, hr, ht', hl, hc, rfl⟩ := ofCoin_ok.mp h
  obtain rfl := Except.ok.inj (ht.symm.trans hr)
  obtain rfl := Except.ok.inj (t.ofLockingScript_lockingScript.symm.trans ht')
  exact ⟨rfl, hl, hc, rfl⟩

lemma checkEcdsa_eq_true {hash : Hash256} {der key : Bytes} : checkEcdsa hash der key = true ↔
    ∃ k, PublicKey.ofBytes key = .ok k ∧ k.verifyDer hash der = .ok () := by
  rw [checkEcdsa]
  cases PublicKey.ofBytes key with
  | error e => simp
  | ok k => cases hv : k.verifyDer hash der <;> simp [Except.isOk, Except.toBool, hv]

namespace Transaction

variable {tx : Transaction} {mid : Midstate} {index : Nat}

omit [Crypto] in
lemma spent_ok {s : SpentOutput} :
    tx.spent index = .ok s ↔ ∃ i, tx.input index = .ok i ∧ i.spent = some s := by
  rw [spent, except_bind_ok]
  constructor
  · rintro ⟨i, hi, h⟩
    cases hs : i.spent with
    | none =>
      rw [hs] at h
      cases h
    | some s' =>
      rw [hs] at h
      cases h
      exact ⟨i, hi, hs⟩
  · rintro ⟨i, hi, hs⟩
    exact ⟨i, hi, by rw [hs]; rfl⟩

lemma verifyInputWith_ok : tx.verifyInputWith mid index = .ok () ↔
    ∃ i s u m, tx.input index = .ok i ∧ i.spent = some s ∧ unlockingScript s.version i = .ok u ∧
      (tx.evaluatorWith mid s.version index).verify u s.finalLocking {} = .ok () m := by
  rw [verifyInputWith]
  simp only [except_bind_ok, spent_ok, mapError_ok]
  constructor
  · rintro ⟨i, hi, s, ⟨i', hi', hs⟩, u, hu, h⟩
    obtain rfl := Except.ok.inj (hi.symm.trans hi')
    cases hm : (tx.evaluatorWith mid s.version index).verify u s.finalLocking {} with
    | ok a m => exact ⟨i, s, u, m, hi, hs, hu, hm⟩
    | error e m =>
      rw [hm] at h
      cases h
  · rintro ⟨i, s, u, m, hi, hs, hu, hm⟩
    exact ⟨i, hi, s, ⟨i, hi, hs⟩, u, hu, by rw [hm]; rfl⟩

lemma checkSignature_evaluatorWith {v : ScriptVersion} {signature key : Bytes} :
    (tx.evaluatorWith mid v index).checkSignature signature key = .ok true ↔
      ∃ last d k, signature.getLast? = some last ∧
        tx.digestWith mid v index ⟨last.toUInt32⟩ = .ok d ∧ PublicKey.ofBytes key = .ok k ∧
        k.verifyDer d signature.dropLast = .ok () := by
  rw [Evaluator.checkSignature]
  simp only [evaluatorWith]
  cases signature.getLast? with
  | none => simp
  | some last =>
    simp only [except_bind_ok, mapError_ok, Option.some.injEq]
    constructor
    · rintro ⟨d, hd, h⟩
      obtain ⟨k, hk, hv⟩ := checkEcdsa_eq_true.mp (Except.ok.inj h)
      exact ⟨last, d, k, rfl, hd, hk, hv⟩
    · rintro ⟨_, d, k, rfl, hd, hk, hv⟩
      exact ⟨d, hd, congrArg Except.ok (checkEcdsa_eq_true.mpr ⟨k, hk, hv⟩)⟩

/-- A verified input that spends a coin locked by a key has an unlocking script that, on its own,
leaves a key with the hash of the coin and, below it, a signature by this key over the digest of the
input for the hash type that stands in its last byte. -/
theorem verifyInput_key_signature {i : Input} {s : SpentOutput} {coin : Coin}
    {redeem : Option Script} {t : Template} {h : Hash160} (hi : tx.input index = .ok i)
    (hs : i.spent = some s) (hcoin : SpentOutput.ofCoin coin redeem = .ok s)
    (hlocking : coin.lockingScript = .ok t.lockingScript) (ht : t = .p2pkh h ∨ t = .p2wpkh h)
    (hv : tx.verifyInput index = .ok ()) :
    ∃ u key signature rest last k d, unlockingScript t.version i = .ok u ∧
      (tx.evaluatorWith tx.midstate t.version index).Takes u [] (key :: signature :: rest) ∧
      hash160 key = h ∧ signature.getLast? = some last ∧
      (t = .p2pkh h → tx.legacyDigest index ⟨last.toUInt32⟩ = .ok d) ∧
      (t = .p2wpkh h → tx.witnessDigest index ⟨last.toUInt32⟩ = .ok d) ∧
      PublicKey.ofBytes key = .ok k ∧ k.verifyDer d signature.dropLast = .ok () := by
  obtain ⟨i', s', u, m, hi', hs', hu, hrun⟩ := verifyInputWith_ok.mp hv
  obtain rfl := Except.ok.inj (hi.symm.trans hi')
  obtain rfl := Option.some.inj (hs.symm.trans hs')
  obtain ⟨htemplate, hfinal, -, -⟩ := SpentOutput.ofCoin_template hlocking hcoin
  have hlock : s.finalLocking = .p2pkh h := by
    obtain rfl | rfl := ht <;> exact (Except.ok.inj hfinal).symm
  have hversion : s.version = t.version := congrArg Template.version htemplate
  rw [hlock, hversion] at hrun
  rw [hversion] at hu
  obtain ⟨-, -, first, second, st, st', hfirst, hsecond, h₁, h₂, htrue, -⟩ :=
    Evaluator.verify_ok_iff.mp ⟨m, hrun⟩
  obtain rfl := Except.ok.inj ((Script.instructions_p2pkh h).symm.trans hsecond)
  obtain ⟨n, hlast⟩ := Evaluator.completes_iff.mp (h₂.of_append h₁)
  obtain ⟨-, -, key, signature, rest, v, rfl, -, hhash, hsig, hend⟩ := Evaluator.runs_p2pkh.mp hlast
  cases hend
  obtain rfl := Stack.topTrue_ofBool.mp htrue
  obtain ⟨last, d, k, hl, hd, hk, hver⟩ := checkSignature_evaluatorWith.mp hsig
  refine ⟨u, key, signature, rest, last, k, d, hu, ⟨first, hfirst, h₁⟩, hhash.symm, hl, ?_, ?_, hk,
    hver⟩
  · rintro rfl
    exact hd
  · rintro rfl
    exact hd

end Transaction

end

def generatorHash : Hash160 := .ofNat 20 0x751e76e8199196d454941c45d1b3a323f1433bd6

def generatorSpent : SpentOutput where
  value := 1000
  template := .p2wpkh generatorHash
  rawLocking := .witnessProgram generatorHash.val
  finalLocking := .p2pkh generatorHash
  redeem := none
  scriptCode := some (.p2pkh generatorHash)

def generatorInput : Input where
  outpoint := ⟨.zero, 0⟩
  sequence := Input.finalSequence
  unlocking := .empty
  witness :=
    [Signature.encode
      { r := .ofNat 32 0x256bbfbdece78f676529ed8d513c170fdc58ed5f1b7f911a2e7c8fc3a545e6e9
        s := .ofNat 32 0x4d8a5a3f490dc3518341afb1c80ab877f6727ab2f88defbacd8adb90f6e6c327 } ++ [1],
      (Secp256k1.generator.compressed).val]
  spent := some generatorSpent

def generatorSpend : Transaction :=
  { Transaction.empty with inputs := [generatorInput], outputs := [⟨900, ⟨[Opcode.one]⟩⟩] }

theorem generatorSpend_key_signature :
    @Transaction.verifyInput Crypto.bitcoin generatorSpend 0 = .ok () ∧
      ∃ u key signature rest,
        Transaction.unlockingScript .witnessV0 generatorInput = .ok u ∧
        @Evaluator.Takes Crypto.bitcoin
          (@Transaction.evaluatorWith Crypto.bitcoin
            (@Transaction.midstate Crypto.bitcoin generatorSpend) generatorSpend .witnessV0 0)
          u [] (key :: signature :: rest) ∧
        @hash160 Crypto.bitcoin key = generatorHash := by
  have hv : @Transaction.verifyInput Crypto.bitcoin generatorSpend 0 = .ok () := by decide +kernel
  obtain ⟨u, key, signature, rest, last, k, d, hu, ht, hh, -⟩ :=
    @Transaction.verifyInput_key_signature Crypto.bitcoin generatorSpend 0 generatorInput
      generatorSpent ⟨⟨.zero, 0⟩, 1000, "0014751e76e8199196d454941c45d1b3a323f1433bd6"⟩ none
      (.p2wpkh generatorHash) generatorHash rfl rfl (by decide +kernel) (by decide +kernel)
      (.inr rfl) hv
  exact ⟨hv, u, key, signature, rest, hu, ht, hh⟩

end BitcoinTx
