import BitcoinTx.Proofs.Signature.Der

/-! A signature is read from its canonical DER form alone. -/

namespace BitcoinTx

lemma beValue_dropWhile (b : Bytes) : beValue (b.dropWhile (· = 0)) = beValue b := by
  induction b with
  | nil => rfl
  | cons x b ih =>
    by_cases hx : x = 0
    · rw [List.dropWhile_cons_of_pos (by simpa using hx), ih, beValue_cons, hx, UInt8.toNat_zero,
        Nat.zero_mul, Nat.zero_add]
    · rw [List.dropWhile_cons_of_neg (by simpa using hx)]

lemma dropWhile_eq_of_beValue {a b : Bytes} (h : beValue a = beValue b) :
    a.dropWhile (· = 0) = b.dropWhile (· = 0) := by
  have hlast (l : Bytes) : (l.dropWhile (· = 0)).reverse.getLast? ≠ some 0 := by
    have hhead := List.head?_dropWhile_not (· = 0) l
    rw [List.getLast?_reverse]
    intro h₀
    simp [h₀] at hhead
  rw [← beValue_dropWhile a, ← beValue_dropWhile b] at h
  exact List.reverse_inj.mp (leValue_inj (hlast a) (hlast b) h)

namespace Signature

lemma canonical_congr {a b : Bytes} (h : beValue a = beValue b) : canonical a = canonical b := by
  rw [canonical, canonical, dropWhile_eq_of_beValue h]

lemma beValue_canonical (b : Bytes) : beValue (canonical b) = beValue b := by
  rw [← beValue_dropWhile b]
  obtain ⟨hd, hc⟩ | ⟨x, l, hd, -, ⟨-, hc⟩ | ⟨-, hc⟩⟩ := canonical_cases b
  · rw [hc, hd]
    rfl
  · rw [hc, hd, beValue_cons, UInt8.toNat_zero, Nat.zero_mul, Nat.zero_add]
  · rw [hc, hd]

/-- The digits of a number, most significant first: as few as there can be without reading as negative. -/
inductive Digits : Bytes → Prop
  | zero : Digits [0]
  | plain {x : UInt8} {l : Bytes} : x ≠ 0 → x < 0x80 → Digits (x :: l)
  | padded {x : UInt8} {l : Bytes} : 0x80 ≤ x → Digits (0 :: x :: l)

lemma digits_canonical (b : Bytes) : Digits (canonical b) := by
  obtain ⟨-, hc⟩ | ⟨x, l, -, h₀, ⟨hx, hc⟩ | ⟨hx, hc⟩⟩ := canonical_cases b
  · exact hc ▸ .zero
  · exact hc ▸ .padded hx
  · exact hc ▸ .plain h₀ hx

lemma canonical_cons {x : UInt8} {l : Bytes} (h : x ≠ 0) :
    canonical (x :: l) = if 0x80 ≤ x then 0 :: x :: l else x :: l := by
  rw [canonical, List.dropWhile_cons_of_neg (by simpa using h)]

lemma canonical_zero_cons (l : Bytes) : canonical (0 :: l) = canonical l := rfl

lemma Digits.canonical_eq {b : Bytes} (h : Digits b) : canonical b = b := by
  cases h with
  | zero => rfl
  | plain h₀ hx => rw [canonical_cons h₀, if_neg (UInt8.not_le.mpr hx)]
  | padded hx =>
    rw [canonical_zero_cons, canonical_cons (by rintro rfl; exact absurd hx (by decide)), if_pos hx]

lemma digits_of_minimal {b : Bytes} (h : minimal b = true) : Digits b := by
  match b with
  | [] => contradiction
  | [x] =>
    have hx : x < 0x80 := of_decide_eq_true h
    by_cases h₀ : x = 0
    · exact h₀ ▸ .zero
    · exact .plain h₀ hx
  | x :: y :: l =>
    simp only [minimal, Bool.and_eq_true, Bool.not_eq_true', Bool.and_eq_false_iff, decide_eq_true_eq,
      decide_eq_false_iff_not] at h
    obtain ⟨hx, h₀ | hy⟩ := h
    · exact .plain h₀ hx
    by_cases h₀ : x = 0
    · exact h₀ ▸ .padded (UInt8.not_lt.mp hy)
    · exact .plain h₀ hx

lemma canonical_replicate_append (k : Nat) (l : Bytes) :
    canonical (List.replicate k 0 ++ l) = canonical l := by
  induction k with
  | zero => rfl
  | succ k ih => rw [List.replicate_succ, List.cons_append, canonical_zero_cons, ih]

lemma canonical_of_ofCanonical? {b : Bytes} {v : FixedBytes 32} (h : ofCanonical? b = some v) :
    canonical v.val = canonical b := by
  unfold ofCanonical? at h
  split at h
  · rw [(FixedBytes.ofTail?_eq_some_iff.mp h).2, canonical_replicate_append, canonical_zero_cons]
  · rw [(FixedBytes.ofTail?_eq_some_iff.mp h).2, canonical_replicate_append]

lemma eq_canonical {b : Bytes} {v : FixedBytes 32} (h : minimal b = true)
    (hv : ofCanonical? b = some v) : b = canonical v.val := by
  rw [canonical_of_ofCanonical? hv, (digits_of_minimal h).canonical_eq]

lemma readInteger?_ok {b rest : Bytes} {v : FixedBytes 32} (h : readInteger? b = some (v, rest)) :
    b = derInteger (canonical v.val) ++ rest := by
  match b with
  | [] | [_] => contradiction
  | tag :: size :: b =>
    rw [readInteger?] at h
    split at h
    · next hint =>
      obtain ⟨rfl, hle, hmin⟩ := hint
      obtain ⟨w, hw, heq⟩ := Option.map_eq_some_iff.mp h
      obtain ⟨rfl, rfl⟩ := Prod.mk.inj heq
      have hsize : size = UInt8.ofNat (b.take size.toNat).length := by
        rw [List.length_take_of_le hle, UInt8.ofNat_toNat]
      rw [← eq_canonical hmin hw, derInteger, ← hsize, List.cons_append, List.cons_append,
        List.take_append_drop]
    · contradiction

lemma ofDer_ok_iff {b : Bytes} {sig : Signature} : ofDer b = .ok sig ↔ b = sig.encode := by
  refine ⟨fun h => ?_, fun h => h ▸ ofDer_encode sig⟩
  match b with
  | [] | [_] => contradiction
  | tag :: size :: content =>
    rw [ofDer] at h
    split at h
    · contradiction
    split at h
    · contradiction
    · next htag =>
      split at h
      · contradiction
      · next hsize =>
        split at h
        · contradiction
        · next r rest hr =>
          split at h
          · contradiction
          · next s hs =>
            obtain rfl := Except.ok.inj h
            have hcontent := readInteger?_ok hr
            rw [readInteger?_ok hs, List.append_nil] at hcontent
            rw [encode, ← hcontent, ← Decidable.not_not.mp hsize, UInt8.ofNat_toNat,
              Decidable.not_not.mp htag]
          · contradiction

/-- An integer: its tag, the number of its digits, and the digits. -/
def IsInteger (v : FixedBytes 32) (b : Bytes) : Prop :=
  ∃ (size : UInt8) (digits : Bytes), b = 0x02 :: size :: digits ∧ size.toNat = digits.length ∧
    Digits digits ∧ beValue digits = v.toNat

/-- The sequence of both integers, behind its tag and the number of bytes to come. -/
def IsDer (sig : Signature) (b : Bytes) : Prop :=
  ∃ (size : UInt8) (x y : Bytes), b = 0x30 :: size :: (x ++ y) ∧ size.toNat = (x ++ y).length ∧
    IsInteger sig.r x ∧ IsInteger sig.s y

lemma isInteger_iff {v : FixedBytes 32} {b : Bytes} :
    IsInteger v b ↔ b = derInteger (canonical v.val) := by
  constructor
  · rintro ⟨size, digits, rfl, hsize, hdigits, hval⟩
    rw [← canonical_congr hval, hdigits.canonical_eq, derInteger, ← hsize, UInt8.ofNat_toNat]
  · rintro rfl
    have hlen : (canonical v.val).length < 256 := by
      have := (length_canonical v).2
      omega
    exact ⟨_, _, rfl, UInt8.toNat_ofNat_of_lt' hlen, digits_canonical _, beValue_canonical _⟩

lemma isDer_iff {sig : Signature} {b : Bytes} : IsDer sig b ↔ b = sig.encode := by
  simp only [IsDer, isInteger_iff]
  constructor
  · rintro ⟨size, _, _, rfl, hsize, rfl, rfl⟩
    rw [encode, ← hsize, UInt8.ofNat_toNat]
  · rintro rfl
    have hlen := sig.length_encode_le.2
    rw [encode, List.length_cons, List.length_cons] at hlen
    exact ⟨_, _, _, rfl, UInt8.toNat_ofNat_of_lt' (by rw [UInt8.size]; omega), rfl, rfl⟩

/-- What is read is exactly the canonical form, so that a signature has no second one. -/
theorem ofDer_strict :
    (∀ (b : Bytes) (sig : Signature), ofDer b = .ok sig ↔ IsDer sig b) ∧
      ∀ (b b' : Bytes) (sig : Signature), ofDer b = .ok sig → ofDer b' = .ok sig → b = b' := by
  refine ⟨fun b sig => ofDer_ok_iff.trans isDer_iff.symm, fun b b' sig h h' => ?_⟩
  rw [ofDer_ok_iff.mp h, ofDer_ok_iff.mp h']

/-- The first integer needs a zero in front; the second is zero and has only one digit. -/
theorem ofDer_strict_signDigit :
    let sig : Signature := ⟨⟨0x80 :: List.replicate 31 0, rfl⟩, .zero 32⟩
    let r : Bytes := [0x02, 33, 0, 0x80] ++ List.replicate 31 0
    ofDer (0x30 :: 38 :: r ++ [0x02, 1, 0]) = .ok sig ∧ IsDer sig (0x30 :: 38 :: r ++ [0x02, 1, 0]) ∧
      ofDer (0x30 :: 39 :: r ++ [0x02, 2, 0, 0]) ≠ .ok sig := by
  intro sig r
  obtain ⟨hiff, hunique⟩ := ofDer_strict
  have h : ofDer (0x30 :: 38 :: r ++ [0x02, 1, 0]) = .ok sig := by with_unfolding_all rfl
  exact ⟨h, (hiff _ sig).mp h, fun h' => absurd (hunique _ _ sig h h') (by decide)⟩

end Signature

end BitcoinTx
