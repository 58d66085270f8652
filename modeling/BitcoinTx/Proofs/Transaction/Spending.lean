import BitcoinTx.Proofs.Eval.MultiSig
import BitcoinTx.Proofs.Eval.Standard
import BitcoinTx.Proofs.Signature.Der
import BitcoinTx.Proofs.Transaction.Signing

/-! Signed inputs verify, when the keys are those that the spent coin asks for. -/

namespace BitcoinTx

open Outcome

variable [Crypto]

/-- Keys accept what is signed with their secret half, and are read back from both written forms. -/
structure Crypto.Correct : Prop where
  verify_sign : ∀ (k : SecretKey) (d : Hash256) (sig : Signature),
    k.sign d = .ok sig → k.publicKey.verify d sig = true
  ofBytes_serialize : ∀ (k : PublicKey) (compressed : Bool),
    PublicKey.ofBytes (PublicKey.serialize k compressed) = .ok k

lemma Crypto.correct_of_parameters
    (hsign : ∀ k d sig, Crypto.sign k d = some sig → Crypto.verify (publicKey k) d sig.normalize)
    (hcompressed : ∀ k : PublicKey, parse? (compressed k).val = some k)
    (huncompressed : ∀ k : PublicKey, parse? (uncompressed k).val = some k) : Crypto.Correct where
  verify_sign k d sig h := by
    rw [SecretKey.sign] at h
    split at h
    · next sig' hs =>
      obtain rfl := Except.ok.inj h
      exact hsign k d sig' hs
    · cases h
  ofBytes_serialize k c := by
    obtain ⟨hne, hparse⟩ : PublicKey.serialize k c ≠ [] ∧
        parse? (PublicKey.serialize k c) = some k := by
      rw [PublicKey.serialize]
      split
      · exact ⟨List.ne_nil_of_length_pos (by simp [(compressed k).property]), hcompressed k⟩
      · exact ⟨List.ne_nil_of_length_pos (by simp [(uncompressed k).property]), huncompressed k⟩
    rw [PublicKey.ofBytes, hparse]
    simp [hne]

lemma SecretKey.ofDer_sign {k : SecretKey} {d : Hash256} {sig : Signature} (h : k.sign d = .ok sig) :
    Signature.ofDer sig.toDer = .ok sig := by
  rw [sign] at h
  split at h
  · next sig' hs =>
    obtain rfl := Except.ok.inj h
    exact Signature.ofDer_toDer (Crypto.sign_s_lt hs)
  · cases h

namespace Signer

variable {signer : Signer} {d : Hash256} {k : SecretKey} {s : KeySignature}

lemma signWith_ok : signer.signWith d k = .ok s ↔ ∃ sig, k.sign d = .ok sig ∧
    s = ⟨k.publicKey.serialize signer.compressed, sig.toDer ++ [signer.hashType.byte]⟩ := by
  rw [signWith, except_map_ok]
  simp only [eq_comm]

lemma length_signature_le (h : signer.signWith d k = .ok s) : s.signature.length ≤ 73 := by
  obtain ⟨sig, -, rfl⟩ := signWith_ok.mp h
  rw [List.length_append, List.length_singleton]
  exact Nat.succ_le_succ (Signature.length_encode_le _).2

lemma length_key_le (h : signer.signWith d k = .ok s) : s.key.length ≤ 65 := by
  obtain ⟨sig, -, rfl⟩ := signWith_ok.mp h
  simp only [PublicKey.serialize]
  split
  · exact Nat.le_trans (Nat.le_of_eq (Crypto.compressed _).property) (by decide)
  · exact Nat.le_of_eq (Crypto.uncompressed _).property

lemma signatures_ok {l : List KeySignature} :
    signer.signatures d = .ok l ↔ List.Forall₂ (signer.signWith d · = .ok ·) signer.keys l := by
  rw [signatures, mapError_ok, mapM_ok]

lemma exists_signWith {l : List KeySignature} (h : signer.signatures d = .ok l) (hs : s ∈ l) :
    ∃ k, signer.signWith d k = .ok s := by
  have hall {ks : List SecretKey} {l : List KeySignature}
      (h : List.Forall₂ (signer.signWith d · = .ok ·) ks l) (hs : s ∈ l) :
      ∃ k, signer.signWith d k = .ok s := by
    induction h with
    | nil => cases hs
    | cons hk _ ih =>
      rcases List.mem_cons.mp hs with rfl | hs
      · exact ⟨_, hk⟩
      · exact ih hs
  exact hall (signatures_ok.mp h) hs

end Signer

omit [Crypto] in
lemma HashType.toUInt32_byte {t : HashType} (h : t.word ≤ 0xff) : t.byte.toUInt32 = t.word := by
  rw [byte]
  apply UInt32.toNat_inj.mp
  have h : t.word.toNat ≤ 255 := h
  simp
  omega

omit [Crypto] in
lemma sublistForall₂_of_forall₂ {α β γ : Type} {P : α → β → Prop} {Q : α → γ → Prop}
    {R : β → γ → Prop} (hr : ∀ {a b c}, P a b → Q a c → R b c) {l : List α} {l' : List β}
    {l'' : List γ} (h : List.Forall₂ P l l') (hq : List.SublistForall₂ Q l l'') :
    List.SublistForall₂ R l' l'' := by
  induction hq generalizing l' with
  | nil =>
    cases h
    exact .nil
  | cons ha _ ih =>
    cases h with
    | cons hb h => exact .cons (hr hb ha) (ih h)
  | cons_right _ ih => exact .cons_right (ih h)

namespace Transaction

variable {tx : Transaction} {mid : Midstate} {v : ScriptVersion} {index : Nat} {signer : Signer}
variable {d : Hash256} {k : SecretKey} {s : KeySignature}

lemma checkSignature_signWith (hd : tx.digestWith mid v index signer.hashType = .ok d)
    (hword : signer.hashType.word ≤ 0xff) (hs : signer.signWith d k = .ok s) (key : Bytes) :
    (tx.evaluatorWith mid v index).checkSignature s.signature key =
      .ok (checkEcdsa d s.signature.dropLast key) := by
  obtain ⟨sig, -, rfl⟩ := Signer.signWith_ok.mp hs
  simp only [Evaluator.checkSignature, evaluatorWith, List.getLast?_concat,
    HashType.toUInt32_byte hword, hd]
  rfl

lemma checkSignature_signWith_key (hc : Crypto.Correct)
    (hd : tx.digestWith mid v index signer.hashType = .ok d) (hword : signer.hashType.word ≤ 0xff)
    (hs : signer.signWith d k = .ok s) {key : Bytes} (hkey : PublicKey.ofBytes key = .ok k.publicKey) :
    (tx.evaluatorWith mid v index).checkSignature s.signature key = .ok true := by
  rw [checkSignature_signWith hd hword hs]
  obtain ⟨sig, hsig, rfl⟩ := Signer.signWith_ok.mp hs
  refine congrArg _ (checkEcdsa_eq_true.mpr ⟨_, hkey, ?_⟩)
  rw [List.dropLast_concat, PublicKey.verifyDer, SecretKey.ofDer_sign hsig]
  simp [hc.verify_sign k d sig hsig]

lemma matchSignatures_signWith (hc : Crypto.Correct)
    (hd : tx.digestWith mid v index signer.hashType = .ok d) (hword : signer.hashType.word ≤ 0xff)
    {l : List KeySignature} (hl : signer.signatures d = .ok l) {keys : List Bytes}
    (hkeys : List.SublistForall₂
      (fun k b => ∃ compressed, b = PublicKey.serialize k.publicKey compressed) signer.keys keys) :
    (tx.evaluatorWith mid v index).matchSignatures (l.map KeySignature.signature) keys =
      .ok true := by
  have htotal : ∀ b ∈ l.map KeySignature.signature, ∀ key ∈ keys,
      ∃ a, (tx.evaluatorWith mid v index).checkSignature b key = .ok a := by
    rw [List.forall_mem_map]
    intro s hs key _
    obtain ⟨k, hk⟩ := Signer.exists_signWith hl hs
    exact ⟨_, checkSignature_signWith hd hword hk key⟩
  obtain ⟨a, ha, hiff⟩ := Evaluator.matchSignatures_ok htotal
  rw [ha, hiff.mpr ?_]
  rw [List.sublistForall₂_map_left_iff]
  refine sublistForall₂_of_forall₂ ?_ (Signer.signatures_ok.mp hl) hkeys
  rintro k s _ hs ⟨compressed, rfl⟩
  exact checkSignature_signWith_key hc hd hword hs (hc.ofBytes_serialize k.publicKey compressed)

end Transaction

namespace Template

open Instruction

variable {l : List KeySignature} {redeem : Option Script} {u : Script} {w : List Bytes}

/-- What spends a coin for a script pushes: an item that the check of signatures ignores, the
signatures, and the script. -/
def redeemItems (l : List KeySignature) (r : Script) : List Bytes :=
  [] :: (l.map KeySignature.signature ++ [r.bytes])

omit [Crypto] in
lemma single_ok {c : KeyCommitment} {s : KeySignature} : single c l = .ok s ↔ l = [s] := by
  rcases l with _ | ⟨a, _ | ⟨b, l⟩⟩ <;> simp [single]

omit [Crypto] in
lemma checkRedeem_ok {c : Commitment} {hash : Bytes → Bytes} {expected : Bytes} {r : Script} :
    checkRedeem c hash expected redeem = .ok r ↔ redeem = some r ∧ hash r.bytes = expected := by
  cases redeem with
  | none => simp [checkRedeem]
  | some r' =>
    simp only [checkRedeem, Option.some.injEq]
    split
    · next h =>
      rw [Except.ok.injEq]
      exact ⟨fun hr => ⟨hr, hr ▸ h⟩, fun hr => hr.1⟩
    · next h => exact ⟨fun hr => (by cases hr), fun hr => absurd (hr.1 ▸ hr.2) h⟩

lemma unlockingScript_p2pkh {h : Hash160} (hu : (p2pkh h).unlockingScript l redeem = .ok u) :
    ∃ s, l = [s] ∧ u = ⟨encodeAll ([s.signature, s.key].map pushing)⟩ := by
  obtain ⟨s, hs, hu⟩ := except_bind_ok.mp hu
  obtain ⟨-, rfl⟩ := Script.pushAll_ok_iff.mp hu
  exact ⟨s, single_ok.mp hs, rfl⟩

lemma unlockingScript_p2sh {h : Hash160} (hu : (p2sh h).unlockingScript l redeem = .ok u) :
    ∃ r, redeem = some r ∧ (∀ x ∈ redeemItems l r, x.length < 2 ^ 32) ∧
      u = ⟨encodeAll ((redeemItems l r).map pushing)⟩ := by
  obtain ⟨r, hr, hu⟩ := except_bind_ok.mp hu
  obtain ⟨_, hz, hu⟩ := except_bind_ok.mp hu
  obtain ⟨-, rfl⟩ := Script.pushOpcodes_ok_iff.mp hz
  obtain ⟨hsize, rfl⟩ := Script.pushAll_ok_iff.mp hu
  exact ⟨r, (checkRedeem_ok.mp hr).1, List.forall_mem_cons.mpr ⟨by decide, hsize⟩, rfl⟩

lemma witnessStack_p2wpkh {h : Hash160} (hw : (p2wpkh h).witnessStack l redeem = .ok w) :
    ∃ s, l = [s] ∧ w = [s.signature, s.key] := by
  obtain ⟨s, hs, rfl⟩ := except_map_ok.mp hw
  exact ⟨s, single_ok.mp hs, rfl⟩

lemma witnessStack_p2wsh {h : Hash256} (hw : (p2wsh h).witnessStack l redeem = .ok w) :
    ∃ r, redeem = some r ∧ w = redeemItems l r := by
  obtain ⟨r, hr, rfl⟩ := except_map_ok.mp hw
  exact ⟨r, (checkRedeem_ok.mp hr).1, rfl⟩

/-- The items that spend a coin with the template: a signature and its key, or all signatures and the
script. -/
def Items (t : Template) (l : List KeySignature) (redeem : Option Script) (items : List Bytes) :
    Prop :=
  match t with
  | p2pkh _ | p2wpkh _ => ∃ s, l = [s] ∧ items = [s.signature, s.key]
  | p2sh _ | p2wsh _ => ∃ r, redeem = some r ∧ items = redeemItems l r

lemma scriptCode_eq_none_iff {t : Template} {code : Option Script}
    (h : t.scriptCode redeem = .ok code) : code = none ↔ t.version = .base := by
  cases t with
  | p2pkh | p2sh =>
    cases h
    simp [version]
  | p2wpkh =>
    cases h
    simp [version]
  | p2wsh =>
    obtain ⟨r, -, rfl⟩ := except_map_ok.mp h
    simp [version]

end Template

/-- Whether the signer has what it takes to spend a coin, given the redeem script: the key of the
coin, or the keys of some of the public keys in the redeem script, in their order. -/
inductive Signer.CanSpend (signer : Signer) (coin : Coin) : Option Script → Prop
  | key (k : SecretKey) (t : Template) : signer.keys = [k] →
    t = .p2pkh (PublicKey.hash160 k.publicKey signer.compressed) ∨
      t = .p2wpkh (PublicKey.hash160 k.publicKey signer.compressed) →
    coin.lockingScript = .ok t.lockingScript → CanSpend signer coin none
  | multisig (keys : List Bytes) (r : Script) (t : Template) :
    Script.multisig signer.keys.length keys = .ok r → r.size ≤ 520 →
    List.SublistForall₂ (fun k b => ∃ compressed, b = PublicKey.serialize k.publicKey compressed)
      signer.keys keys →
    t = .p2sh (hash160 r.bytes) ∨ t = .p2wsh (sha256 r.bytes) →
    coin.lockingScript = .ok t.lockingScript → CanSpend signer coin (some r)

namespace Transaction

variable {tx : Transaction} {index : Nat} {signer : Signer} {coin : Coin} {redeem : Option Script}
variable {s : SpentOutput} {t : Template}

lemma SignedBy.items (h : tx.SignedBy index signer) (hs : tx.spent index = .ok s)
    (hcoin : SpentOutput.ofCoin coin redeem = .ok s)
    (ht : coin.lockingScript = .ok t.lockingScript) :
    ∃ d l items, tx.digestWith tx.midstate s.version index signer.hashType = .ok d ∧
      signer.signatures d = .ok l ∧ t.Items l redeem items ∧
      ((∀ x ∈ items, x.length < 2 ^ 32) → ∃ i, tx.input index = .ok i ∧ i.spent = some s ∧
        unlockingScript s.version i = .ok ⟨Instruction.encodeAll (items.map .pushing)⟩) := by
  obtain ⟨i, s', d, l, hi, hs', hd, hl, hu, hw⟩ := h
  obtain rfl := Except.ok.inj ((spent_ok.mpr ⟨i, hi, hs'⟩).symm.trans hs)
  obtain ⟨htemplate, -, hcode, hredeem⟩ := SpentOutput.ofCoin_template ht hcoin
  have hversion : s'.version = t.version := congrArg Template.version htemplate
  have hcode := Template.scriptCode_eq_none_iff hcode
  have hsigned : signedVersion s' = t.version := by
    rw [signedVersion]
    split
    · next h => exact (hcode.mp h).symm
    · next h =>
      cases hv : t.version with
      | base => exact absurd (hcode.mpr hv) h
      | witnessV0 => rfl
  rw [htemplate, hredeem] at hu hw
  rw [hsigned] at hd
  rw [hversion]
  cases t with
  | p2pkh =>
    obtain ⟨k, rfl, hpush⟩ := Template.unlockingScript_p2pkh hu
    exact ⟨d, _, _, hd, hl, ⟨k, rfl, rfl⟩, fun _ => ⟨i, hi, hs', congrArg Except.ok hpush⟩⟩
  | p2sh =>
    obtain ⟨r, hr, -, hpush⟩ := Template.unlockingScript_p2sh hu
    exact ⟨d, l, _, hd, hl, ⟨r, hr, rfl⟩, fun _ => ⟨i, hi, hs', congrArg Except.ok hpush⟩⟩
  | p2wpkh =>
    have hne : s'.scriptCode ≠ none := fun h => by cases hcode.mp h
    obtain ⟨k, rfl, hstack⟩ := Template.witnessStack_p2wpkh (hw hne)
    refine ⟨d, _, _, hd, hl, ⟨k, rfl, rfl⟩, fun hsize => ⟨i, hi, hs', ?_⟩⟩
    exact Script.pushAll_ok_iff.mpr ⟨hstack ▸ hsize, by rw [hstack]; rfl⟩
  | p2wsh =>
    have hne : s'.scriptCode ≠ none := fun h => by cases hcode.mp h
    obtain ⟨r, hr, hstack⟩ := Template.witnessStack_p2wsh (hw hne)
    refine ⟨d, l, _, hd, hl, ⟨r, hr, rfl⟩, fun hsize => ⟨i, hi, hs', ?_⟩⟩
    exact Script.pushAll_ok_iff.mpr ⟨hstack ▸ hsize, by rw [hstack]; rfl⟩

lemma verifyInput_of_pushes {items : List Bytes}
    (hlen : ∀ x ∈ items, x.length ≤ 520)
    (hpush : (∀ x ∈ items, x.length < 2 ^ 32) → ∃ i, tx.input index = .ok i ∧ i.spent = some s ∧
      unlockingScript s.version i = .ok ⟨Instruction.encodeAll (items.map .pushing)⟩)
    (hv : ∃ m, (tx.evaluatorWith tx.midstate s.version index).verify
      ⟨Instruction.encodeAll (items.map .pushing)⟩ s.finalLocking {} = .ok () m) :
    tx.verifyInput index = .ok () := by
  obtain ⟨i, hi, hspent, hu⟩ := hpush fun x hx => Nat.lt_of_le_of_lt (hlen x hx) (by decide)
  obtain ⟨m, hm⟩ := hv
  exact verifyInputWith_ok.mpr ⟨i, s, _, m, hi, hspent, hu, hm⟩

lemma SignedBy.verifyInput_key (hc : Crypto.Correct) (h : tx.SignedBy index signer)
    (hword : signer.hashType.word ≤ 0xff) (hs : tx.spent index = .ok s)
    (hcoin : SpentOutput.ofCoin coin none = .ok s)
    (hlock : coin.lockingScript = .ok t.lockingScript) {k : SecretKey} (hkeys : signer.keys = [k])
    (ht : t = .p2pkh (PublicKey.hash160 k.publicKey signer.compressed) ∨
      t = .p2wpkh (PublicKey.hash160 k.publicKey signer.compressed)) :
    tx.verifyInput index = .ok () := by
  obtain ⟨d, l, items, hd, hl, hitems, hpush⟩ := h.items hs hcoin hlock
  obtain ⟨ks, hl', rfl⟩ : ∃ ks, l = [ks] ∧ items = [ks.signature, ks.key] := by
    obtain rfl | rfl := ht <;> exact hitems
  have hks : signer.signWith d k = .ok ks := by
    rw [Signer.signatures_ok, hkeys, hl'] at hl
    exact (List.forall₂_cons.mp hl).1
  have hfinal : s.finalLocking = .p2pkh (hash160 ks.key) := by
    obtain ⟨-, hfinal, -⟩ := SpentOutput.ofCoin_template hlock hcoin
    obtain ⟨sig, -, rfl⟩ := Signer.signWith_ok.mp hks
    obtain rfl | rfl := ht <;> exact (Except.ok.inj hfinal).symm
  have hkey : PublicKey.ofBytes ks.key = .ok k.publicKey := by
    obtain ⟨sig, -, rfl⟩ := Signer.signWith_ok.mp hks
    exact hc.ofBytes_serialize k.publicKey signer.compressed
  have hsignature := Nat.le_trans (Signer.length_signature_le hks) (by decide : 73 ≤ 520)
  have hlength := Nat.le_trans (Signer.length_key_le hks) (by decide : 65 ≤ 520)
  refine verifyInput_of_pushes (by simp [hsignature, hlength]) hpush ?_
  rw [hfinal]
  exact Evaluator.verify_p2pkh_pushing rfl hsignature hlength
    (checkSignature_signWith_key hc hd hword hks hkey)

lemma SignedBy.verifyInput_multisig (hc : Crypto.Correct) (h : tx.SignedBy index signer)
    (hword : signer.hashType.word ≤ 0xff) (hs : tx.spent index = .ok s) {r : Script}
    (hcoin : SpentOutput.ofCoin coin (some r) = .ok s)
    (hlock : coin.lockingScript = .ok t.lockingScript) {keys : List Bytes}
    (hr : Script.multisig signer.keys.length keys = .ok r) (hsize : r.size ≤ 520)
    (hkeys : List.SublistForall₂
      (fun k b => ∃ compressed, b = PublicKey.serialize k.publicKey compressed) signer.keys keys)
    (ht : t = .p2sh (hash160 r.bytes) ∨ t = .p2wsh (sha256 r.bytes)) :
    tx.verifyInput index = .ok () := by
  obtain ⟨d, l, items, hd, hl, hitems, hpush⟩ := h.items hs hcoin hlock
  obtain rfl : items = Template.redeemItems l r := by
    obtain rfl | rfl := ht <;>
    · obtain ⟨r', hr', rfl⟩ := hitems
      rw [Option.some.inj hr']
  have hfinal : s.finalLocking = .p2sh (hash160 r.bytes) := by
    obtain ⟨-, hfinal, -⟩ := SpentOutput.ofCoin_template hlock hcoin
    obtain rfl | rfl := ht
    · exact (Except.ok.inj hfinal).symm
    · obtain ⟨r', hr', hf⟩ := except_map_ok.mp hfinal
      obtain rfl := Option.some.inj (Template.checkRedeem_ok.mp hr').1
      exact hf.symm
  have hlen : (l.map KeySignature.signature).length = signer.keys.length := by
    rw [List.length_map, (Signer.signatures_ok.mp hl).length_eq]
  have hsigs : ∀ b ∈ l.map KeySignature.signature, b.length ≤ 520 := by
    rw [List.forall_mem_map]
    intro ks hks
    obtain ⟨k, hk⟩ := Signer.exists_signWith hl hks
    exact Nat.le_trans (Signer.length_signature_le hk) (by decide)
  have hitem : ∀ b ∈ Template.redeemItems l r, b.length ≤ 520 := by
    rw [Template.redeemItems, List.forall_mem_cons, List.forall_mem_append]
    exact ⟨Nat.zero_le _, hsigs, List.forall_mem_singleton.mpr hsize⟩
  refine verifyInput_of_pushes hitem hpush ?_
  rw [hfinal]
  exact Evaluator.verify_multisig_pushing rfl (hlen ▸ hr) hsize hsigs
    (matchSignatures_signWith hc hd hword hl hkeys)

lemma SignedBy.verifyInput (hc : Crypto.Correct) (h : tx.SignedBy index signer)
    (hword : signer.hashType.word ≤ 0xff) (hs : tx.spent index = .ok s)
    (hcoin : SpentOutput.ofCoin coin redeem = .ok s) (hspend : signer.CanSpend coin redeem) :
    tx.verifyInput index = .ok () := by
  cases hspend with
  | key k t hkeys ht hlock => exact h.verifyInput_key hc hword hs hcoin hlock hkeys ht
  | multisig keys r t hr hsize hkeys ht hlock =>
    exact h.verifyInput_multisig hc hword hs hcoin hlock hr hsize hkeys ht

end Transaction

end BitcoinTx
