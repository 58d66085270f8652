import BitcoinTx.Proofs.Bytes.Endian
import BitcoinTx.Signature.Der

/-! Signatures are read back from their DER form, and a normalized signature has a low `s`. -/

namespace BitcoinTx

namespace FixedBytes

lemma replicate_append_dropWhile (b : Bytes) :
    List.replicate (b.length - (b.dropWhile (· = 0)).length) 0 ++ b.dropWhile (· = 0) = b := by
  induction b with
  | nil => rfl
  | cons x b ih =>
    by_cases hx : x = 0
    · have hlen := (List.dropWhile_sublist (· = 0) (l := b)).length_le
      rw [List.dropWhile_cons_of_pos (by simpa using hx), List.length_cons, Nat.succ_sub hlen,
        List.replicate_succ, List.cons_append, ih, hx]
    · rw [List.dropWhile_cons_of_neg (by simpa using hx), Nat.sub_self]
      rfl

lemma ofTail?_dropWhile {n : Nat} (b : FixedBytes n) :
    ofTail? n (b.val.dropWhile (· = 0)) = some b := by
  have hlen := (List.dropWhile_sublist (· = 0) (l := b.val)).length_le
  have h := replicate_append_dropWhile b.val
  rw [b.property] at hlen h
  exact ofTail?_eq_some_iff.mpr ⟨hlen, h.symm⟩

end FixedBytes

namespace Signature

lemma canonical_cases (b : Bytes) :
    b.dropWhile (· = 0) = [] ∧ canonical b = [0] ∨
      ∃ x l, b.dropWhile (· = 0) = x :: l ∧ x ≠ 0 ∧
        (0x80 ≤ x ∧ canonical b = 0 :: x :: l ∨ x < 0x80 ∧ canonical b = x :: l) := by
  have hhead := List.head?_dropWhile_not (· = 0) b
  rw [canonical]
  cases hd : b.dropWhile (· = 0) with
  | nil => exact .inl ⟨rfl, rfl⟩
  | cons x l =>
    rw [hd] at hhead
    refine .inr ⟨x, l, rfl, by simpa using hhead, ?_⟩
    by_cases hx : 0x80 ≤ x
    · exact .inl ⟨hx, if_pos hx⟩
    · exact .inr ⟨UInt8.not_le.mp hx, if_neg hx⟩

variable (b : FixedBytes 32)

lemma minimal_canonical : minimal (canonical b.val) = true := by
  obtain ⟨-, hc⟩ | ⟨x, l, -, h₀, ⟨hx, hc⟩ | ⟨hx, hc⟩⟩ := canonical_cases b.val
  · rw [hc]
    rfl
  · simp [hc, minimal, hx]
  · cases l with
    | nil => simp [hc, minimal, hx]
    | cons y l => simp [hc, minimal, hx, h₀]

lemma ofCanonical?_canonical : ofCanonical? (canonical b.val) = some b := by
  have hb := b.ofTail?_dropWhile
  obtain ⟨hd, hc⟩ | ⟨x, l, hd, h₀, ⟨-, hc⟩ | ⟨-, hc⟩⟩ := canonical_cases b.val
  · rw [hc, ← hb, hd]
    rfl
  · rw [hc, ← hb, hd]
    rfl
  · rw [hc, ← hb, hd, ofCanonical?]
    intro rest h
    exact h₀ (List.cons.inj h).1

lemma length_canonical : 0 < (canonical b.val).length ∧ (canonical b.val).length ≤ 33 := by
  have hlen := (List.dropWhile_sublist (· = 0) (l := b.val)).length_le
  rw [b.property] at hlen
  obtain ⟨hd, hc⟩ | ⟨x, l, hd, -, ⟨-, hc⟩ | ⟨-, hc⟩⟩ := canonical_cases b.val
  · simp [hc]
  · rw [hd] at hlen
    simp only [hc, List.length_cons] at *
    omega
  · rw [hd] at hlen
    simp only [hc, List.length_cons] at *
    omega

lemma readInteger?_derInteger (rest : Bytes) :
    readInteger? (derInteger (canonical b.val) ++ rest) = some (b, rest) := by
  obtain ⟨-, hlen⟩ := length_canonical b
  have hsize : (UInt8.ofNat (canonical b.val).length).toNat = (canonical b.val).length :=
    UInt8.toNat_ofNat_of_lt' (by omega : (canonical b.val).length < 256)
  rw [derInteger, List.cons_append, List.cons_append, readInteger?, hsize]
  simp [minimal_canonical, ofCanonical?_canonical]

lemma length_derInteger (b : Bytes) : (derInteger b).length = b.length + 2 := rfl

lemma length_encode_le (sig : Signature) : 8 ≤ sig.encode.length ∧ sig.encode.length ≤ 72 := by
  have hr := length_canonical sig.r
  have hs := length_canonical sig.s
  simp only [encode, List.length_cons, List.length_append, length_derInteger]
  omega

lemma ofDer_encode (sig : Signature) : ofDer sig.encode = .ok sig := by
  obtain ⟨hmin, hmax⟩ := sig.length_encode_le
  have hend := readInteger?_derInteger sig.s []
  rw [List.append_nil] at hend
  have hlen : sig.encode.length =
      (derInteger (canonical sig.r.val) ++ derInteger (canonical sig.s.val)).length + 2 := rfl
  have hsize := UInt8.toNat_ofNat_of_lt' (show
    (derInteger (canonical sig.r.val) ++ derInteger (canonical sig.s.val)).length < 256 by omega)
  have hbounds : ¬ (sig.encode.length < 8 ∨ maxDerSize < sig.encode.length) := by
    rw [maxDerSize]
    omega
  rw [encode] at hbounds ⊢
  simp only [ofDer, if_neg hbounds, hsize, ne_eq, not_true, if_false, readInteger?_derInteger, hend]

lemma toNat_negate {s : FixedBytes 32} (h₀ : 0 < s.toNat) (h : s.toNat ≤ Secp256k1.n) :
    (negate s).toNat = Secp256k1.n - s.toNat := by
  have hn : Secp256k1.n < 256 ^ 32 := by decide
  have hpow : 1 <<< 256 = 256 ^ 32 := by decide
  have hval : Secp256k1.n + 256 ^ 32 - s.toNat = 256 ^ 32 + (Secp256k1.n - s.toNat) := by omega
  rw [negate, hpow, FixedBytes.toNat_ofNat, hval, Nat.add_mod_left, Nat.mod_eq_of_lt (by omega)]

lemma toNat_low {s : FixedBytes 32} (h : s.toNat ≤ Secp256k1.n) : (low s).toNat =
    if s.toNat ≤ Secp256k1.halfOrder then s.toNat else Secp256k1.n - s.toNat := by
  by_cases hs : High s
  · rw [low, if_pos hs, if_neg (Nat.not_le_of_lt hs), toNat_negate (Nat.zero_lt_of_lt hs) h]
  · rw [low, if_neg hs, if_pos (Nat.le_of_not_lt hs)]

lemma toNat_low_le {s : FixedBytes 32} (h : s.toNat ≤ Secp256k1.n) :
    (low s).toNat ≤ Secp256k1.halfOrder := by
  rw [toNat_low h, Secp256k1.halfOrder]
  split <;> omega

lemma low_low {s : FixedBytes 32} (h : s.toNat ≤ Secp256k1.n) : low (low s) = low s :=
  if_neg (Nat.not_lt.mpr (toNat_low_le h))

lemma ofDer_toDer {sig : Signature} (h : sig.s.toNat < Secp256k1.n) :
    ofDer sig.normalize.toDer = .ok sig.normalize := by
  rw [toDer, ofDer_encode]
  simp [normalize, low_low (Nat.le_of_lt h)]

end Signature

end BitcoinTx
