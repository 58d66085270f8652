import BitcoinTx.Address.Text
import BitcoinTx.Proofs.Text.Base58
import BitcoinTx.Proofs.Text.Bech32

/-! Addresses and their text. -/

namespace BitcoinTx

def Network.readBack : Network → Network
  | mainnet => mainnet
  | testnet | regtest => testnet

namespace Address

lemma create_payload (a : Address) (n : Network) :
    create a.kind a.payload n = .ok { a with network := n } := by
  rw [create, dif_pos a.payload_length]

lemma of_create_ok {kind : AddressKind} {payload : Bytes} {n : Network} {a : Address}
    (h : create kind payload n = .ok a) : a.kind = kind ∧ a.payload = payload ∧ a.network = n := by
  rw [create] at h
  split at h
  · cases h
    exact ⟨rfl, rfl, rfl⟩
  · contradiction

lemma of_ofVersion?_eq_some {v : UInt8} {kind : AddressKind} {n : Network}
    (h : ofVersion? v = some (kind, n)) :
    (kind = .p2pkh ∧ n.p2pkhVersion = v) ∨ (kind = .p2sh ∧ n.p2shVersion = v) := by
  rw [ofVersion?] at h
  split_ifs at h with h₁ h₂ h₃ h₄ <;> cases h
  · exact .inl ⟨rfl, h₁.symm⟩
  · exact .inr ⟨rfl, h₂.symm⟩
  · exact .inl ⟨rfl, h₃.symm⟩
  · exact .inr ⟨rfl, h₄.symm⟩

/-! ### Witness programs -/

lemma hrp_spec (n : Network) :
    Bech32.validHrp n.hrp ∧ n.hrp.all (! Bech32.isUpper ·) ∧ n.hrp.length ≤ 4 := by
  cases n <;> decide

lemma valid_program {payload : Bytes} (h : payload.length = 20 ∨ payload.length = 32) (n : Network) :
    Bech32.Valid ⟨n.hrp, 0, payload⟩ where
  hrp := (hrp_spec n).1
  lower c hc := by simpa using List.all_eq_true.mp (hrp_spec n).2.1 c hc
  version := Nat.zero_le 16
  program := by
    rcases h with h | h <;> simp [Bech32.validProgram, h]
  length := by
    have hhrp := (hrp_spec n).2.2
    have hfives := Bits.length_fives payload
    have hwritten : (Bech32.written ⟨n.hrp, 0, payload⟩).length =
        n.hrp.length + (Bits.fives payload).length + 8 := by
      simp [Bech32.written, Bech32.symbols, Bech32.content, Bech32.checksum]
      omega
    omega

lemma find?_hrp (n : Network) : Network.all.find? (·.hrp = n.hrp) = some n := by
  cases n <;> decide

variable [Crypto]

lemma toText_of_segwit {a : Address} (h : a.kind = .p2wpkh ∨ a.kind = .p2wsh) (n : Network) :
    a.toText n = Bech32.encode ⟨n.hrp, 0, a.payload⟩ := by
  rw [toText]
  rcases h with h | h <;> rw [h]

lemma ofText_toText_segwit {a : Address} (h : a.kind = .p2wpkh ∨ a.kind = .p2wsh) (n : Network) :
    ofText (a.toText n) = .ok { a with network := n } := by
  have hlen : a.payload.length = 20 ∨ a.payload.length = 32 :=
    h.imp a.payload_length_of a.payload_length_of
  have hkind : (if a.payload.length = 20 then AddressKind.p2wpkh else .p2wsh) = a.kind := by
    rcases h with h | h <;> simp [a.payload_length_of h, h, AddressKind.payloadSize]
  rw [ofText, toText_of_segwit h, Bech32.decode_encode (valid_program hlen n)]
  simp only [ofSegwit, find?_hrp]
  rw [if_neg (by decide), hkind, create_payload]

lemma toText_of_ofSegwit {text : String} {s : SegwitProgram} {a : Address}
    (h : ofSegwit text s = .ok a) : a.toText a.network = Bech32.encode s := by
  rw [ofSegwit] at h
  split at h
  · contradiction
  next network hfind =>
    split at h
    · contradiction
    next hversion =>
      obtain ⟨hkind, hpayload, rfl⟩ := of_create_ok h
      have hhrp : a.network.hrp = s.hrp :=
        of_decide_eq_true (List.find?_some (p := fun n : Network => decide (n.hrp = s.hrp)) hfind)
      have hsegwit : a.kind = .p2wpkh ∨ a.kind = .p2wsh := by
        rw [hkind]
        split
        · exact .inl rfl
        · exact .inr rfl
      rw [toText_of_segwit hsegwit, hhrp, hpayload, ← not_not.mp hversion]

/-! ### Hashes -/

lemma ofBase58_encodeBase58 {kind : AddressKind} {n : Network} {v : UInt8} {payload : Bytes}
    (hlen : payload.length = 20) (hv : ofVersion? v = some (kind, n)) :
    ofBase58 (encodeBase58 v payload) = create kind payload n := by
  have hbody : (v :: payload).length = 21 := congrArg Nat.succ hlen
  have hsize : (v :: payload ++ checksum (v :: payload)).length = 25 := by
    rw [List.length_append, hbody, length_checksum]
  have htake : (v :: payload ++ checksum (v :: payload)).take 21 = v :: payload :=
    List.take_left' hbody
  have hdrop : (v :: payload ++ checksum (v :: payload)).drop 21 = checksum (v :: payload) :=
    List.drop_left' hbody
  have hpayload : ((v :: payload ++ checksum (v :: payload)).drop 1).take 20 = payload :=
    List.take_left' hlen
  have hhead : (v :: payload ++ checksum (v :: payload)).headD 0 = v := rfl
  rw [ofBase58, encodeBase58, Base58.decode_encode]
  simp only [hsize, htake, hdrop, hpayload, hhead, hv, ne_eq, not_true_eq_false, if_false]

lemma encodeBase58_of_ofBase58 {text : String} {a : Address} (h : ofBase58 text = .ok a) :
    ∃ v, ofVersion? v = some (a.kind, a.network) ∧ encodeBase58 v a.payload = text := by
  rw [ofBase58] at h
  split at h
  · contradiction
  next b hdecode =>
    split at h
    · contradiction
    next hsize =>
      split at h
      · contradiction
      next hsum =>
        split at h
        · contradiction
        next kind network hv =>
          obtain ⟨rfl, hpayload, rfl⟩ := of_create_ok h
          refine ⟨b.headD 0, hv, ?_⟩
          cases b with
          | nil => contradiction
          | cons v rest =>
            have hbody : v :: rest.take 20 ++ checksum (v :: rest.take 20) = v :: rest := by
              have hsum' : checksum (v :: rest.take 20) = rest.drop 20 := (not_not.mp hsum).symm
              rw [hsum', List.cons_append, List.take_append_drop]
            have hpayload' : a.payload = rest.take 20 := hpayload
            rw [encodeBase58, hpayload']
            change Base58.encode (v :: rest.take 20 ++ checksum (v :: rest.take 20)) = text
            rw [hbody]
            exact Base58.encode_of_decode hdecode

lemma toText_of_ofVersion? {v : UInt8} {a : Address} {n : Network}
    (h : ofVersion? v = some (a.kind, n)) : a.toText n = encodeBase58 v a.payload := by
  obtain ⟨hkind, rfl⟩ | ⟨hkind, rfl⟩ := of_ofVersion?_eq_some h
  · rw [toText, hkind]
  · rw [toText, hkind]

lemma exists_ofVersion? {a : Address} (h : a.kind = .p2pkh ∨ a.kind = .p2sh) (n : Network) :
    ∃ v, ofVersion? v = some (a.kind, n.readBack) ∧ a.toText n = encodeBase58 v a.payload := by
  rcases h with h | h
  · refine ⟨n.p2pkhVersion, ?_, ?_⟩
    · rw [h]
      cases n <;> rfl
    · rw [toText, h]
  · refine ⟨n.p2shVersion, ?_, ?_⟩
    · rw [h]
      cases n <;> rfl
    · rw [toText, h]

/-- The text of an address is read back as the address, for the network that it was written for, unless
Base58 gives two networks the same text. And only that text is read as the address, up to the case of
the letters of a witness program. -/
theorem ofText_toText :
    (∀ (a : Address) (n : Network), a.kind = .p2wpkh ∨ a.kind = .p2wsh →
      ofText (a.toText n) = .ok { a with network := n }) ∧
    (∀ (a : Address) (n : Network), a.kind = .p2pkh ∨ a.kind = .p2sh →
      Bech32.decode (a.toText n) = none →
      ofText (a.toText n) = .ok { a with network := n.readBack }) ∧
    ∀ (text : String) (a : Address), ofText text = .ok a →
      a.toText a.network = if (Bech32.decode text).isSome then text.toLower else text := by
  refine ⟨fun a n h => ofText_toText_segwit h n, fun a n h hnone => ?_, fun text a h => ?_⟩
  · obtain ⟨v, hv, htext⟩ := exists_ofVersion? h n
    have hlen : a.payload.length = 20 := h.elim a.payload_length_of a.payload_length_of
    rw [ofText, hnone]
    change ofBase58 (a.toText n) = _
    rw [htext, ofBase58_encodeBase58 hlen hv, create_payload]
  · rw [ofText] at h
    cases hdecode : Bech32.decode text with
    | some s =>
      rw [hdecode] at h
      rw [toText_of_ofSegwit h, Bech32.encode_of_decode hdecode]
      rfl
    | none =>
      rw [hdecode] at h
      obtain ⟨v, hv, htext⟩ := encodeBase58_of_ofBase58 h
      rw [toText_of_ofVersion? hv, htext]
      rfl

end Address

def hashAddress (kind : AddressKind) (h : kind.payloadSize = 20) : Address :=
  ⟨kind, beBytes 20 0x751e76e8199196d454941c45d1b3a323f1433bd6, .mainnet, h.symm⟩

theorem ofText_toText_hashAddress :
    @Address.ofText Crypto.bitcoin (@Address.toText Crypto.bitcoin (hashAddress .p2wpkh rfl) .regtest) =
        .ok { hashAddress .p2wpkh rfl with network := .regtest } ∧
      @Address.ofText Crypto.bitcoin (@Address.toText Crypto.bitcoin (hashAddress .p2pkh rfl) .regtest) =
        .ok { hashAddress .p2pkh rfl with network := .testnet } ∧
      @Address.toText Crypto.bitcoin (hashAddress .p2wpkh rfl) .mainnet =
        "bc1qw508d6qejxtdg4y5r3zarvary0c5xw7kv8f3t4" ∧
      @Address.toText Crypto.bitcoin (hashAddress .p2pkh rfl) .mainnet =
        "1BgGZ9tcN4rm9KBzDn7KprQz87SZ26SAMH" := by
  obtain ⟨hsegwit, hhash, htext⟩ := @Address.ofText_toText Crypto.bitcoin
  refine ⟨hsegwit _ .regtest (.inl rfl), hhash _ .regtest (.inl rfl) (by decide +kernel), ?_, ?_⟩
  · exact (htext "BC1QW508D6QEJXTDG4Y5R3ZARVARY0C5XW7KV8F3T4" _ (by decide +kernel)).trans
      (by decide +kernel)
  · exact (htext "1BgGZ9tcN4rm9KBzDn7KprQz87SZ26SAMH" _ (by decide +kernel)).trans
      (by decide +kernel)

end BitcoinTx
