import BitcoinTx.Key.Wif
import BitcoinTx.Proofs.Text.Base58

/-! Wallet import format: a key is read from the text that is written for it and from its form without the
flag, and from no other text. -/

namespace BitcoinTx

open Outcome

namespace SecretKey

variable {k : SecretKey} {network : UInt8} {b flag : Bytes} {n : Nat} {text : String}

/-- What stands behind the key: the flag for compressed public keys, or nothing. -/
def IsWifFlag (flag : Bytes) : Prop := flag = [] ∨ flag = [compressedFlag]

def wifPayload (k : SecretKey) (network : UInt8) (flag : Bytes) : Bytes :=
  network :: k.bytes.val ++ flag

lemma length_wifPayload : (k.wifPayload network flag).length = 33 + flag.length := by
  rw [wifPayload, List.length_append, List.length_cons, k.bytes.property]

lemma wifPayloadSize_ok : wifPayloadSize b = .ok n ↔ ∃ flag, IsWifFlag flag ∧
    n = 33 + flag.length ∧ b.length = n + 4 ∧ (b.drop 33).take flag.length = flag := by
  have hflag : (b.drop 33).take 1 = [compressedFlag] ↔ b[33]? = some compressedFlag := by
    rw [List.take_one, List.head?_drop]
    cases b[33]? <;> simp
  rw [wifPayloadSize]
  constructor
  · intro h
    split_ifs at h with h38 hbyte h37 <;> cases h
    · exact ⟨[compressedFlag], .inr rfl, rfl, h38, hflag.mpr hbyte⟩
    · exact ⟨[], .inl rfl, rfl, h37, rfl⟩
  · rintro ⟨flag, rfl | rfl, rfl, hlen, hbyte⟩
    · have h37 : b.length = 37 := hlen
      rw [if_neg (by omega), if_pos h37]
      rfl
    · have h38 : b.length = 38 := hlen
      rw [if_pos h38, if_pos (hflag.mp hbyte)]
      rfl

variable [Crypto]

def wifBytes (k : SecretKey) (network : UInt8) (flag : Bytes) : Bytes :=
  k.wifPayload network flag ++ checksum (k.wifPayload network flag)

lemma toWif_eq (k : SecretKey) (network : UInt8) :
    k.toWif network = Base58.encode (k.wifBytes network [compressedFlag]) := rfl

lemma length_wifBytes : (k.wifBytes network flag).length = 33 + flag.length + 4 := by
  rw [wifBytes, List.length_append, length_wifPayload, length_checksum]

lemma wifBytes_eq : k.wifBytes network flag =
    network :: (k.bytes.val ++ (flag ++ checksum (k.wifPayload network flag))) := by
  simp [wifBytes, wifPayload]

lemma wifPayloadSize_wifBytes (h : IsWifFlag flag) :
    wifPayloadSize (k.wifBytes network flag) = .ok (33 + flag.length) := by
  refine wifPayloadSize_ok.mpr ⟨flag, h, rfl, length_wifBytes, ?_⟩
  rw [wifBytes_eq, List.drop_succ_cons, List.drop_left' k.bytes.property, List.take_left]

lemma checksum_wifBytes : checksum ((k.wifBytes network flag).take (33 + flag.length)) =
    (k.wifBytes network flag).drop (33 + flag.length) := by
  rw [wifBytes, List.take_left' length_wifPayload, List.drop_left' length_wifPayload]

lemma key_wifBytes : ((k.wifBytes network flag).drop 1).take 32 = k.bytes.val := by
  rw [wifBytes_eq, List.drop_succ_cons, List.drop_zero, List.take_left' k.bytes.property]

lemma ofWif_ok : ofWif text = .ok k ↔ ∃ b n, Base58.decode text = .ok b ∧
    wifPayloadSize b = .ok n ∧ checksum (b.take n) = b.drop n ∧
      (b.drop 1).take 32 = k.bytes.val := by
  rw [ofWif]
  cases Base58.decode text with
  | error e =>
    constructor
    · intro h
      contradiction
    · rintro ⟨b, n, h, -⟩
      contradiction
  | ok b =>
    simp only [except_bind_ok]
    constructor
    · rintro ⟨n, hn, h⟩
      split_ifs at h with hsum
      exact ⟨b, n, rfl, hn, hsum, ofBytes_ok_iff.mp h⟩
    · rintro ⟨b, n, hb, hn, hsum, hkey⟩
      cases hb
      exact ⟨n, hn, (if_pos hsum).trans (ofBytes_ok_iff.mpr hkey)⟩

lemma exists_wifBytes (hn : wifPayloadSize b = .ok n) (hsum : checksum (b.take n) = b.drop n)
    (hkey : (b.drop 1).take 32 = k.bytes.val) :
    ∃ network flag, IsWifFlag flag ∧ b = k.wifBytes network flag := by
  obtain ⟨flag, hflag, rfl, hlen, hbehind⟩ := wifPayloadSize_ok.mp hn
  cases b with
  | nil => contradiction
  | cons network rest =>
    refine ⟨network, flag, hflag, ?_⟩
    have hkey' : rest.take 32 = k.bytes.val := hkey
    have hpayload : (network :: rest).take (33 + flag.length) = k.wifPayload network flag := by
      rw [List.take_add, hbehind, List.take_succ_cons, hkey', wifPayload]
    rw [wifBytes, ← hpayload, hsum, List.take_append_drop]

theorem ofWif_ok_iff : ofWif text = .ok k ↔ ∃ network flag, IsWifFlag flag ∧
    Base58.decode text = .ok (k.wifBytes network flag) := by
  rw [ofWif_ok]
  constructor
  · rintro ⟨b, n, hdecode, hn, hsum, hkey⟩
    obtain ⟨network, flag, hflag, rfl⟩ := exists_wifBytes hn hsum hkey
    exact ⟨network, flag, hflag, hdecode⟩
  · rintro ⟨network, flag, hflag, hdecode⟩
    exact ⟨_, _, hdecode, wifPayloadSize_wifBytes hflag, checksum_wifBytes, key_wifBytes⟩

/-- A key is read back from its text, whatever the network byte. Every text that is read stands for 37 or
38 bytes, and those of 38 bytes are written for the key and the first byte with this text only. -/
theorem ofWif_toWif :
    (∀ (k : SecretKey) (network : UInt8), ofWif (k.toWif network) = .ok k) ∧
    ∀ (text : String) (k : SecretKey), ofWif text = .ok k →
      ∃ b, Base58.decode text = .ok b ∧ (b.length = 37 ∨ b.length = 38) ∧
        ∀ network, b.length = 38 → b.head? = some network → k.toWif network = text := by
  constructor
  · intro k network
    rw [toWif_eq]
    exact ofWif_ok_iff.mpr ⟨network, _, .inr rfl, Base58.decode_encode _⟩
  · intro text k h
    obtain ⟨network, flag, hflag, hdecode⟩ := ofWif_ok_iff.mp h
    refine ⟨_, hdecode, ?_⟩
    rw [length_wifBytes]
    obtain rfl | rfl := hflag
    · exact ⟨.inl rfl, by simp⟩
    · refine ⟨.inr rfl, fun first _ hfirst => ?_⟩
      obtain rfl : network = first := Option.some.inj hfirst
      rw [toWif_eq]
      exact Base58.encode_of_decode hdecode

end SecretKey

def greatestKey : SecretKey := ⟨.ofNat 32 (Secp256k1.n - 1), by decide⟩

theorem ofWif_toWif_greatestKey :
    @SecretKey.ofWif Crypto.bitcoin (@SecretKey.toWif Crypto.bitcoin greatestKey 0) = .ok greatestKey ∧
      @SecretKey.ofWif Crypto.bitcoin "L5oLkpV3aqBjhki6LmvChTCV6odsp4SXM6FfU2Gppt5kFLaHLuZ9" =
        .ok greatestKey ∧
      @SecretKey.toWif Crypto.bitcoin greatestKey SecretKey.mainnetWif =
        "L5oLkpV3aqBjhki6LmvChTCV6odsp4SXM6FfU2Gppt5kFLaHLuZ9" := by
  obtain ⟨hread, hwrite⟩ := @SecretKey.ofWif_toWif Crypto.bitcoin
  have h : @SecretKey.ofWif Crypto.bitcoin "L5oLkpV3aqBjhki6LmvChTCV6odsp4SXM6FfU2Gppt5kFLaHLuZ9" =
      .ok greatestKey := by
    decide +kernel
  have hb : Base58.decode "L5oLkpV3aqBjhki6LmvChTCV6odsp4SXM6FfU2Gppt5kFLaHLuZ9" =
      .ok (@SecretKey.wifBytes Crypto.bitcoin greatestKey SecretKey.mainnetWif
        [SecretKey.compressedFlag]) := by
    decide +kernel
  obtain ⟨b, hdecode, -, htext⟩ := hwrite _ _ h
  cases hdecode.symm.trans hb
  exact ⟨hread greatestKey 0, h,
    htext SecretKey.mainnetWif (@SecretKey.length_wifBytes _ _ _ Crypto.bitcoin) rfl⟩

end BitcoinTx
