import BitcoinTx.Proofs.Transaction.Locality
import BitcoinTx.Proofs.Transaction.Spending

/-! The digest that is signed and the one that is checked. Signing takes a hash type of four bytes and
leaves one of them with the signature, from which the verifier has to tell the type. -/

namespace BitcoinTx

open Outcome

namespace HashType

def ofByte (b : UInt8) : HashType := ⟨b.toUInt32⟩

variable (t : HashType)

lemma land_word_ofByte {m : UInt32} (hm : m.toNat < 2 ^ 8) :
    (ofByte t.byte).word &&& m = t.word &&& m := by
  apply UInt32.toNat_inj.mp
  apply Nat.eq_of_testBit_eq
  intro k
  have hbyte : (ofByte t.byte).word.toNat = t.word.toNat % 2 ^ 8 := by simp [ofByte, byte]
  rw [UInt32.toNat_and, UInt32.toNat_and, hbyte, Nat.testBit_and, Nat.testBit_and,
    Nat.testBit_mod_two_pow]
  -- `m` has no bit above the lowest byte
  by_cases hk : k < 8
  · simp [hk]
  · have hlt : m.toNat < 2 ^ k := Nat.lt_of_lt_of_le hm (Nat.pow_le_pow_right (by decide) (by omega))
    simp [Nat.testBit_lt_two_pow hlt]

lemma base_ofByte : (ofByte t.byte).base = t.base := by
  rw [base, base, land_word_ofByte t (by decide)]

lemma anyoneCanPay_ofByte : (ofByte t.byte).anyoneCanPay = t.anyoneCanPay := by
  rw [anyoneCanPay, anyoneCanPay, land_word_ofByte t (by decide)]

variable {t}

lemma ofByte_byte (h : t.word ≤ 0xff) : ofByte t.byte = t := by
  rw [ofByte, toUInt32_byte h]

end HashType

lemma Signer.forall₂_signatures [Crypto] {signer : Signer} {d : Hash256} {l : List KeySignature}
    (h : signer.signatures d = .ok l) :
    List.Forall₂ (fun k x => ∃ sig, k.sign d = .ok sig ∧
      x.signature = sig.toDer ++ [signer.hashType.byte]) signer.keys l := by
  refine (signatures_ok.mp h).imp fun k x hx => ?_
  obtain ⟨sig, hsig, rfl⟩ := signWith_ok.mp hx
  exact ⟨sig, hsig, rfl⟩

namespace Transaction

variable {tx : Transaction} {index : Nat} {code : Script} {t t' : HashType}

lemma legacyPreimage_agree (hb : t'.base = t.base) (hpay : t'.anyoneCanPay = t.anyoneCanPay) :
    ∃ q, tx.legacyPreimage index code t = q ++ leBytes 4 t.word.toNat ∧
      tx.legacyPreimage index code t' = q ++ leBytes 4 t'.word.toNat := by
  have hencode (position : Nat) (l : List Input) :
      encodeForSigning t' index code position l = encodeForSigning t index code position l := by
    induction l generalizing position with
    | nil => rfl
    | cons i l ih =>
      rw [encodeForSigning, encodeForSigning, ih, encodeUnsigned, encodeUnsigned, hb]
  have hinputs : tx.legacyInputs index code t' = tx.legacyInputs index code t := by
    rw [legacyInputs, legacyInputs, hpay, hencode]
  have houtputs : tx.legacyOutputs index t' = tx.legacyOutputs index t := by
    rw [legacyOutputs, legacyOutputs, hb]
  refine ⟨_, rfl, ?_⟩
  rw [legacyPreimage, hinputs, houtputs]

variable [Crypto] {mid : Midstate}

lemma witnessPreimageWith_agree (hb : t'.base = t.base) (hpay : t'.anyoneCanPay = t.anyoneCanPay)
    {p : Bytes} (hp : witnessPreimageWith mid tx index t = .ok p) :
    ∃ q, p = q ++ leBytes 4 t.word.toNat ∧
      witnessPreimageWith mid tx index t' = .ok (q ++ leBytes 4 t'.word.toNat) := by
  obtain ⟨i, hi, hp⟩ := except_bind_ok.mp hp
  obtain ⟨s, hs, hp⟩ := except_bind_ok.mp hp
  refine ⟨_, (except_pure_ok.mp hp).symm, ?_⟩
  rw [witnessPreimageWith, hi, hs, except_ok_bind, except_ok_bind, hashPrevouts, hashSequences,
    hashOutputs, hb, hpay]
  rfl

lemma digestWith_agree (hb : t'.base = t.base) (hpay : t'.anyoneCanPay = t.anyoneCanPay)
    {v : ScriptVersion} {d : Hash256} (hd : digestWith mid tx v index t = .ok d) :
    ∃ d', digestWith mid tx v index t' = .ok d' ∧ (d = noOutputDigest ∧ d' = noOutputDigest ∨
      ∃ q, d = sha256d (q ++ leBytes 4 t.word.toNat) ∧ d' = sha256d (q ++ leBytes 4 t'.word.toNat)) := by
  cases v with
  | base =>
    obtain ⟨s, hs, hd⟩ := except_bind_ok.mp hd
    rw [digestWith, legacyDigest, hs, except_ok_bind, hb]
    split at hd
    · next hout =>
      rw [if_pos hout]
      exact ⟨noOutputDigest, rfl, .inl ⟨(except_pure_ok.mp hd).symm, rfl⟩⟩
    · next hout =>
      obtain ⟨code, hcode, hd⟩ := except_bind_ok.mp hd
      obtain ⟨q, hq, hq'⟩ := @legacyPreimage_agree tx index code t t' hb hpay
      rw [if_neg hout, hcode, except_ok_bind, hq']
      exact ⟨_, rfl, .inr ⟨q, hq ▸ (except_pure_ok.mp hd).symm, rfl⟩⟩
  | witnessV0 =>
    obtain ⟨p, hp, rfl⟩ := except_map_ok.mp hd
    obtain ⟨q, rfl, hq⟩ := witnessPreimageWith_agree hb hpay hp
    rw [digestWith, witnessDigestWith, hq]
    exact ⟨_, rfl, .inr ⟨q, rfl, rfl⟩⟩

lemma signedVersion_eq {coin : Coin} {redeem : Option Script} {s : SpentOutput}
    (h : SpentOutput.ofCoin coin redeem = .ok s) : signedVersion s = s.version := by
  obtain ⟨raw, template, locking, scriptCode, -, -, -, hcode, rfl⟩ := SpentOutput.ofCoin_ok.mp h
  have hiff := Template.scriptCode_eq_none_iff hcode
  change (if scriptCode = none then ScriptVersion.base else .witnessV0) = template.version
  split
  · next hnone => exact (hiff.mp hnone).symm
  · next hsome =>
    cases hv : template.version with
    | base => exact absurd (hiff.mpr hv) hsome
    | witnessV0 => rfl

end Transaction

namespace CachedTransaction

open Transaction TransactionM

section

variable [Crypto] {c : CachedTransaction} {index : Nat} {signer : Signer} {i : Input} {s : SpentOutput}
variable {coin : Coin} {redeem : Option Script}

lemma tx_sign_ok (hc : c.Coherent) (h : answer (sign index signer) c = .ok ()) :
    c.tx.sign index signer = .ok (after (sign index signer) c).tx := by
  have hanswer := (refines_sign index signer).answer_eq hc
  rw [h, answer, updating] at hanswer
  rw [(refines_sign index signer).tx_after hc, after, updating]
  cases hs : c.tx.sign index signer with
  | ok tx => rfl
  | error e =>
    rw [hs] at hanswer
    cases hanswer

lemma hasher_after_sign (hc : c.Coherent) {v : ScriptVersion} {b : UInt8} {d : Hash256}
    (hd : c.tx.digestWith c.tx.midstate v index (.ofByte b) = .ok d) :
    let c' := after (sign index signer) c
    (c'.tx.evaluatorWith (c'.midstate?.getD c'.tx.midstate) v index).hasher.map (· b.toUInt32) =
      some (.ok d) := by
  intro c'
  have hbare : c'.tx.bare = c.tx.bare := bare_after_sign hc
  have hmid : c'.midstate?.getD c'.tx.midstate = c.tx.midstate :=
    ((refines_sign index signer).coherent_after hc).getD.trans (midstate_congr hbare)
  change some ((digestWith _ _ _ _ (.ofByte b)).mapError _) = _
  rw [hmid, digestWith_congr index _ hbare, hd]
  rfl

/-- What the input holds once it is signed: signatures over the digest of the version of what it spends. -/
lemma input_after_sign (hc : c.Coherent) (hi : c.tx.input index = .ok i) (hs : i.spent = some s)
    (hcoin : SpentOutput.ofCoin coin redeem = .ok s) (hsign : answer (sign index signer) c = .ok ()) :
    ∃ i' l d, (after (sign index signer) c).tx.input index = .ok i' ∧ i'.spent = some s ∧
      s.template.unlockingScript l s.redeem = .ok i'.unlocking ∧
      (s.version = .witnessV0 → s.template.witnessStack l s.redeem = .ok i'.witness) ∧
      signer.signatures d = .ok l ∧
      c.tx.digestWith c.tx.midstate s.version index signer.hashType = .ok d := by
  obtain ⟨⟨i', s', d, l, hi', hs', hd, hl, hu, hw⟩, hbare, -⟩ := sign_ok (tx_sign_ok hc hsign)
  obtain rfl : s' = s := by
    have hspent := (spent_congr index hbare).trans (spent_ok.mpr ⟨i, hi, hs⟩)
    exact Except.ok.inj ((spent_ok.mpr ⟨i', hi', hs'⟩).symm.trans hspent)
  rw [midstate_congr hbare, digestWith_congr index _ hbare, signedVersion_eq hcoin] at hd
  refine ⟨i', l, d, hi', hs', hu, fun hv => hw fun hnone => ?_, hl, hd⟩
  have hbase : signedVersion s' = .base := if_pos hnone
  rw [← signedVersion_eq hcoin, hbase] at hv
  cases hv

/-- An input whose signing succeeds holds a signature for each key, over one digest and with the lowest byte
of the hash type. The verifier hashes the same text for that byte, but for the type at its end: the digests
are equal when the type is a byte. -/
theorem Reached.sign_digest (h : Reached c) (hi : c.tx.input index = .ok i) (hs : i.spent = some s)
    (hcoin : SpentOutput.ofCoin coin redeem = .ok s)
    (hsign : answer (sign index signer) c = .ok ()) :
    let c' := after (sign index signer) c
    let verifier := c'.tx.evaluatorWith (c'.midstate?.getD c'.tx.midstate) s.version index
    ∃ i' l d d', c'.tx.input index = .ok i' ∧ i'.spent = some s ∧
      s.template.unlockingScript l s.redeem = .ok i'.unlocking ∧
      (s.version = .witnessV0 → s.template.witnessStack l s.redeem = .ok i'.witness) ∧
      List.Forall₂ (fun k x => ∃ sig, k.sign d = .ok sig ∧
        x.signature = sig.toDer ++ [signer.hashType.byte]) signer.keys l ∧
      verifier.hasher.map (· signer.hashType.byte.toUInt32) = some (.ok d') ∧
      (signer.hashType.word ≤ 0xff → d' = d) ∧
      (d = noOutputDigest ∧ d' = noOutputDigest ∨
        ∃ q, d = sha256d (q ++ leBytes 4 signer.hashType.word.toNat) ∧
          d' = sha256d (q ++ leBytes 4 signer.hashType.byte.toNat)) := by
  intro c' verifier
  have hc := h.coherent
  obtain ⟨i', l, d, hi', hs', hu, hw, hl, hd⟩ := input_after_sign hc hi hs hcoin hsign
  obtain ⟨d', hd', hagree⟩ :=
    digestWith_agree signer.hashType.base_ofByte signer.hashType.anyoneCanPay_ofByte hd
  refine ⟨i', l, d, d', hi', hs', hu, hw, Signer.forall₂_signatures hl, hasher_after_sign hc hd',
    fun hword => ?_, ?_⟩
  · rw [HashType.ofByte_byte hword, hd] at hd'
    exact (Except.ok.inj hd').symm
  · simpa [HashType.ofByte] using hagree

end

def signedTwin (t : HashType) : CachedTransaction :=
  after (@sign Crypto.bitcoin 0 (signerOne true t)) twinSpend

def twinVerifier (t : HashType) : Evaluator :=
  @evaluatorWith Crypto.bitcoin
    ((signedTwin t).midstate?.getD (@Transaction.midstate Crypto.bitcoin (signedTwin t).tx))
    (signedTwin t).tx .witnessV0 0

lemma reached_twinSpend : @Reached Crypto.bitcoin twinSpend :=
  @Reached.replay Crypto.bitcoin _ (@Reached.empty Crypto.bitcoin) _

theorem sign_digest_twinSpend :
    answer (@sign Crypto.bitcoin 0 (signerOne true ⟨0x83⟩)) twinSpend = .ok () ∧
      ∃ i l d, (signedTwin ⟨0x83⟩).tx.input 0 = .ok i ∧
        @Template.witnessStack Crypto.bitcoin (.p2wpkh generatorHash) l none = .ok i.witness ∧
        List.Forall₂ (fun k x => ∃ sig, @SecretKey.sign Crypto.bitcoin k d = .ok sig ∧
          x.signature = sig.toDer ++ [0x83]) (signerOne true ⟨0x83⟩).keys l ∧
        (twinVerifier ⟨0x83⟩).hasher.map (· 0x83) = some (.ok d) := by
  have hsign : answer (@sign Crypto.bitcoin 0 (signerOne true ⟨0x83⟩)) twinSpend = .ok () := by
    decide +kernel
  obtain ⟨i, l, d, d', hi, -, -, hw, hl, hd, heq, -⟩ :=
    @Reached.sign_digest Crypto.bitcoin twinSpend 0 (signerOne true ⟨0x83⟩)
      { generatorInput with witness := [] } generatorSpent
      ⟨⟨.zero, 0⟩, 1000, "0014751e76e8199196d454941c45d1b3a323f1433bd6"⟩ none reached_twinSpend rfl rfl
      (by decide +kernel) hsign
  obtain rfl := heq (by decide)
  exact ⟨hsign, i, l, d', hi, hw rfl, hl, hd⟩

/-- With a hash type of more than a byte, the signature covers another digest than the one that its byte
has the verifier hash. -/
theorem sign_digest_truncated :
    answer (@sign Crypto.bitcoin 0 (signerOne true ⟨0x101⟩)) twinSpend = .ok () ∧
      ∃ i l d d', (signedTwin ⟨0x101⟩).tx.input 0 = .ok i ∧
        @Template.witnessStack Crypto.bitcoin (.p2wpkh generatorHash) l none = .ok i.witness ∧
        List.Forall₂ (fun k x => ∃ sig, @SecretKey.sign Crypto.bitcoin k d = .ok sig ∧
          x.signature = sig.toDer ++ [1]) (signerOne true ⟨0x101⟩).keys l ∧
        (twinVerifier ⟨0x101⟩).hasher.map (· 1) = some (.ok d') ∧ d' ≠ d := by
  have hc : @Coherent Crypto.bitcoin twinSpend := @Reached.coherent Crypto.bitcoin _ reached_twinSpend
  have hsign : answer (@sign Crypto.bitcoin 0 (signerOne true ⟨0x101⟩)) twinSpend = .ok () := by
    decide +kernel
  -- signing changes nothing that is hashed, so the digests are compared before it
  have hne : @Transaction.witnessDigest Crypto.bitcoin twinSpend.tx 0 ⟨1⟩ ≠
      @Transaction.witnessDigest Crypto.bitcoin twinSpend.tx 0 ⟨0x101⟩ := by decide +kernel
  obtain ⟨i, l, d, hi, -, -, hw, hl, hd⟩ :=
    @input_after_sign Crypto.bitcoin twinSpend 0 (signerOne true ⟨0x101⟩)
      { generatorInput with witness := [] } generatorSpent
      ⟨⟨.zero, 0⟩, 1000, "0014751e76e8199196d454941c45d1b3a323f1433bd6"⟩ none hc rfl rfl
      (by decide +kernel) hsign
  obtain ⟨d', hd', -⟩ := @digestWith_agree twinSpend.tx 0 ⟨0x101⟩ ⟨1⟩ Crypto.bitcoin _ rfl rfl .witnessV0 d hd
  refine ⟨hsign, i, l, d, d', hi, hw rfl, @Signer.forall₂_signatures Crypto.bitcoin _ _ _ hl,
    @hasher_after_sign Crypto.bitcoin _ _ _ hc _ 1 _ hd', ?_⟩
  rintro rfl
  exact hne (hd'.trans hd.symm)

end CachedTransaction

end BitcoinTx
