import BitcoinTx.Proofs.Transaction.Locality
import BitcoinTx.Proofs.Transaction.Spending

/-! What a verified input reveals whose coin pays to the hash of a witness script. -/

namespace BitcoinTx

open Outcome TransactionM

section

variable [Crypto]

/-- The coin data is that of the coin, with a redeem script that was given or found in an input. -/
def SpentOutput.IsOf (s : SpentOutput) (coin : Coin) (redeem : Option Script) : Prop :=
  ofCoin coin redeem = .ok s ∨ ∃ i : Input, i.spentOf coin redeem = .ok s

section

variable {s : SpentOutput} {coin : Coin} {redeem : Option Script} {raw : Script} {p : Hash256}

lemma SpentOutput.IsOf.exists_ofCoin (h : s.IsOf coin redeem) :
    ∃ found, ofCoin coin found = .ok s ∧ ∀ r, redeem = some r → found = some r := by
  obtain h | ⟨i, h⟩ := h
  · exact ⟨redeem, h, fun r hr => hr⟩
  · obtain ⟨found, hfound, h⟩ := except_bind_ok.mp h
    refine ⟨found, h, fun r hr => ?_⟩
    rw [hr] at hfound
    exact (Except.ok.inj hfound).symm

lemma SpentOutput.IsOf.exists_redeem (h : s.IsOf coin redeem) (hraw : coin.lockingScript = .ok raw)
    (hp : Template.ofLockingScript raw = .ok (.p2wsh p)) :
    ∃ r, s.redeem = some r ∧ (∀ r', redeem = some r' → r' = r) ∧ sha256 r.bytes = p ∧
      s.version = .witnessV0 ∧ s.finalLocking = .p2sh (hash160 r.bytes) ∧ s.witnessCode = r := by
  obtain ⟨found, h, hfound⟩ := h.exists_ofCoin
  obtain ⟨raw', t, locking, code, hraw', ht, hlocking, hcode, rfl⟩ := ofCoin_ok.mp h
  obtain rfl := Except.ok.inj (hraw.symm.trans hraw')
  obtain rfl := Except.ok.inj (hp.symm.trans ht)
  obtain ⟨r, hr, rfl⟩ := except_map_ok.mp hlocking
  obtain ⟨r', hr', rfl⟩ := except_map_ok.mp hcode
  obtain rfl := Except.ok.inj (hr.symm.trans hr')
  obtain ⟨rfl, hhash⟩ := Template.checkRedeem_ok.mp hr
  refine ⟨r, rfl, fun r' hr' => (Option.some.inj (hfound r' hr')).symm, ?_, rfl, rfl, rfl⟩
  exact Subtype.ext hhash

end

namespace Transaction

def codePreimage (tx : Transaction) (index : Nat) (i : Input) (value : UInt64) (code : Script)
    (t : HashType) : Bytes :=
  leBytes 4 tx.version.toNat ++ (hashPrevouts tx.midstate t).val ++ (hashSequences tx.midstate t).val ++
    i.outpoint.encode ++ varBytes code.bytes ++ leBytes 8 value.toNat ++ leBytes 4 i.sequence.toNat ++
    (hashOutputs tx.midstate tx index t).val ++ leBytes 4 tx.lockTime.toNat ++ leBytes 4 t.word.toNat

def codeEvaluator (tx : Transaction) (index : Nat) (i : Input) (value : UInt64) (code : Script) :
    Evaluator where
  hasher := some fun t => .ok (sha256d (tx.codePreimage index i value code ⟨t⟩))
  verifier := some checkEcdsa

variable {tx : Transaction} {index : Nat} {i : Input} {s : SpentOutput}

lemma evaluatorWith_witness (hi : tx.input index = .ok i) (hs : i.spent = some s) :
    tx.evaluatorWith tx.midstate .witnessV0 index =
      tx.codeEvaluator index i s.value s.witnessCode := by
  have hspent : tx.spent index = .ok s := spent_ok.mpr ⟨i, hi, hs⟩
  have hdigest (t : HashType) : tx.digestWith tx.midstate .witnessV0 index t =
      .ok (sha256d (tx.codePreimage index i s.value s.witnessCode t)) := by
    rw [digestWith, witnessDigestWith, witnessPreimageWith, hi, hspent, except_ok_bind, except_ok_bind]
    rfl
  simp only [evaluatorWith, codeEvaluator, hdigest]
  rfl

lemma exists_revealed {r : Script} (hi : tx.input index = .ok i) (hs : i.spent = some s)
    (hversion : s.version = .witnessV0) (hlocking : s.finalLocking = .p2sh (hash160 r.bytes))
    (hcode : s.witnessCode = r) (hv : tx.verifyInput index = .ok ()) :
    ∃ w r' t, i.witness = w ++ [r'] ∧ hash160 r' = hash160 r.bytes ∧
      (tx.codeEvaluator index i s.value r).Takes ⟨r'⟩ (Stack.ofItems w) t ∧ t.TopTrue := by
  obtain ⟨i', s', u, m, hi', hs', hu, hrun⟩ := verifyInputWith_ok.mp hv
  obtain rfl := Except.ok.inj (hi.symm.trans hi')
  obtain rfl := Option.some.inj (hs.symm.trans hs')
  rw [hversion] at hu hrun
  rw [evaluatorWith_witness hi hs, hcode, hlocking] at hrun
  obtain ⟨hsmall, rfl⟩ := Script.pushAll_ok_iff.mp hu
  obtain ⟨r', w, t, hitems, hhash, htakes, ht⟩ := Evaluator.redeem_of_verify_pushing hsmall hrun
  refine ⟨w.reverse, r', t, ?_, hhash, ?_, ht⟩
  · rw [← List.reverse_cons, ← hitems, List.reverse_reverse]
  · rwa [Stack.ofItems, List.reverse_reverse]

end Transaction

namespace CachedTransaction

open Transaction

variable {c : CachedTransaction} {index : Nat} {i : Input} {s : SpentOutput} {coin : Coin}
  {redeem : Option Script} {raw : Script} {p : Hash256}

lemma answer_verifyInput_unlocking (hc : c.Coherent) (hi : c.tx.input index = .ok i)
    (hs : i.spent = some s) (hversion : s.version = .witnessV0) (u : Script) :
    answer (verifyInput index) (after (Call.modifyInput index ({ · with unlocking := u })).run c) =
      answer (verifyInput index) c := by
  have hcall := (Call.modifyInput index ({ · with unlocking := u })).refines
  have hc' := hcall.coherent_after hc
  have htx : (after (Call.modifyInput index ({ · with unlocking := u })).run c).tx =
      c.tx.modifyInput index ({ · with unlocking := u }) := hcall.tx_after hc
  have hbare : (c.tx.modifyInput index ({ · with unlocking := u })).bare = c.tx.bare :=
    bare_modifyInput fun _ => rfl
  rw [(refines_verifyInput index).answer_eq hc', (refines_verifyInput index).answer_eq hc,
    answer_reading, answer_reading, htx]
  apply verifyInput_congr hbare
  intro a a' s' ha ha' hs'
  obtain rfl := Except.ok.inj (hi.symm.trans ha)
  obtain rfl := Option.some.inj (hs.symm.trans hs')
  rw [input_modifyInput, hi] at ha'
  obtain rfl := Except.ok.inj ha'
  rw [hversion]
  rfl

/-- An input with the data of a coin that pays to the hash `p` of a witness script: the script is the one
with this hash, and once the input verifies, its witness reveals a script that BIP 143 signatures over that
one satisfy. The unlocking script plays no part. -/
theorem Reached.verifyInput_p2wsh (h : Reached c) (hi : c.tx.input index = .ok i)
    (hs : i.spent = some s) (hcoin : s.IsOf coin redeem) (hraw : coin.lockingScript = .ok raw)
    (hp : Template.ofLockingScript raw = .ok (.p2wsh p)) :
    ∃ r, s.redeem = some r ∧ (∀ r', redeem = some r' → r' = r) ∧ sha256 r.bytes = p ∧
      (answer (verifyInput index) c = .ok () →
        ∃ w r' l m, i.witness = w ++ [r'] ∧ hash160 r' = hash160 r.bytes ∧
          Script.instructions ⟨r'⟩ = .ok l ∧
          (c.tx.codeEvaluator index i s.value r).runAll l
            { stack := Stack.ofItems w, program := l } = .ok () m ∧
          m.conditions = [] ∧ m.stack.TopTrue) ∧
      ∀ u, answer (verifyInput index)
          (after (Call.modifyInput index ({ · with unlocking := u })).run c) =
        answer (verifyInput index) c := by
  obtain ⟨r, hr, hgiven, hhash, hversion, hlocking, hcode⟩ := hcoin.exists_redeem hraw hp
  refine ⟨r, hr, hgiven, hhash, fun hv => ?_,
    answer_verifyInput_unlocking h.coherent hi hs hversion⟩
  rw [(refines_verifyInput index).answer_eq h.coherent, answer_reading] at hv
  obtain ⟨w, r', t, hw, hh, ⟨l, hl, m, hm, rfl⟩, ht⟩ := exists_revealed hi hs hversion hlocking hcode hv
  obtain ⟨hrun, hconditions, -⟩ := Evaluator.run_ok.mp hm
  exact ⟨w, r', l, m, hw, hh, hl, hrun, hconditions, ht⟩

end CachedTransaction

end

def equalScript : Script := ⟨[Opcode.one, Opcode.equal]⟩

def equalCoin : Coin :=
  ⟨⟨.zero, 0⟩, 1000, "00202715be8e2c2c8febd01a6de9f4651a25c5d5540a022010caab1abd37365b10a5"⟩

def equalSpent : SpentOutput where
  value := 1000
  template := .p2wsh (@sha256 Crypto.bitcoin equalScript.bytes)
  rawLocking := .witnessProgram (@sha256 Crypto.bitcoin equalScript.bytes).val
  finalLocking := .p2sh (@hash160 Crypto.bitcoin equalScript.bytes)
  redeem := some equalScript
  scriptCode := some equalScript

namespace CachedTransaction

def equalSpend : CachedTransaction :=
  @replay Crypto.bitcoin
    [.addInput { Input.unsigned ⟨.zero, 0⟩ 0 with witness := [[1], equalScript.bytes] },
      .hydrate 0 equalCoin none]
    .empty

theorem verifyInput_p2wsh_equalSpend :
    answer (@verifyInput Crypto.bitcoin 0) equalSpend = .ok () ∧
      ∃ w r' l m, [[1], equalScript.bytes] = w ++ [r'] ∧ Script.instructions ⟨r'⟩ = .ok l ∧
        @Evaluator.runAll Crypto.bitcoin
          (@Transaction.codeEvaluator Crypto.bitcoin equalSpend.tx 0
            { Input.unsigned ⟨.zero, 0⟩ 0 with
              witness := [[1], equalScript.bytes], spent := some equalSpent } 1000 equalScript) l
          { stack := Stack.ofItems w, program := l } = .ok () m ∧ m.stack.TopTrue := by
  have h : @Reached Crypto.bitcoin equalSpend :=
    @Reached.replay Crypto.bitcoin _ (@Reached.empty Crypto.bitcoin) _
  have hv : answer (@verifyInput Crypto.bitcoin 0) equalSpend = .ok () := by decide +kernel
  have hfound : @Input.spentOf Crypto.bitcoin
      { Input.unsigned ⟨.zero, 0⟩ 0 with witness := [[1], equalScript.bytes] } equalCoin none =
      .ok equalSpent := by decide +kernel
  have ht : Template.ofLockingScript equalSpent.rawLocking = .ok equalSpent.template := by
    decide +kernel
  obtain ⟨r, hr, -, -, hrun, -⟩ := @Reached.verifyInput_p2wsh Crypto.bitcoin equalSpend 0
    { Input.unsigned ⟨.zero, 0⟩ 0 with
      witness := [[1], equalScript.bytes], spent := some equalSpent }
    equalSpent equalCoin none _ _ h (by decide +kernel) rfl (.inr ⟨_, hfound⟩) (by decide +kernel) ht
  obtain rfl := Option.some.inj hr
  obtain ⟨w, r', l, m, hw, -, hl, hm, -, htop⟩ := hrun hv
  exact ⟨hv, w, r', l, m, hw, hl, hm, htop⟩

end CachedTransaction

end BitcoinTx
