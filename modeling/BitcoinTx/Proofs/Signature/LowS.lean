import BitcoinTx.Proofs.Signature.Der

/-! The written form of a signature has a low `s`, and writing it again changes nothing. -/

namespace BitcoinTx

/-- Subtracts digit by digit, the least significant one first; the result comes with what is still borrowed
behind the last digit. -/
def subtract : Bytes → Bytes → Bool → Bytes × Bool
  | x :: a, y :: b, borrow =>
    let diff : Int := x.toNat - y.toNat - borrow.toNat
    let rest := subtract a b (diff < 0)
    (UInt8.ofNat (if diff < 0 then diff + 0x100 else diff).toNat :: rest.1, rest.2)
  | _, _, borrow => ([], borrow)

def difference (a b : Bytes) : Bytes := (subtract a.reverse b.reverse false).1.reverse

lemma length_subtract {a b : Bytes} (h : a.length = b.length) (borrow : Bool) :
    (subtract a b borrow).1.length = a.length := by
  induction a generalizing b borrow with
  | nil => rfl
  | cons x a ih =>
    cases b with
    | nil => contradiction
    | cons y b => exact congrArg Nat.succ (ih (Nat.succ.inj h) _)

lemma leValue_subtract {a b : Bytes} (h : a.length = b.length) (borrow : Bool) :
    leValue (subtract a b borrow).1 + leValue b + borrow.toNat =
      leValue a + 256 ^ a.length * (subtract a b borrow).2.toNat := by
  induction a generalizing b borrow with
  | nil =>
    rw [List.eq_nil_of_length_eq_zero h.symm]
    simp [subtract, leValue]
  | cons x a ih =>
    cases b with
    | nil => contradiction
    | cons y b =>
      have hx := x.toNat_lt
      have hy := y.toNat_lt
      have hborrow := borrow.toNat_le
      have hrest := ih (Nat.succ.inj h) (decide ((x.toNat : Int) - y.toNat - borrow.toNat < 0))
      rw [subtract, List.length_cons, Nat.pow_succ', Nat.mul_assoc]
      simp only [leValue, UInt8.toNat_ofNat']
      -- a digit that borrows is too great by the base, which the next digit makes up for
      by_cases hneg : (x.toNat : Int) - y.toNat - borrow.toNat < 0
      · simp only [hneg, decide_true, if_true, Bool.toNat_true] at hrest ⊢
        omega
      · simp only [hneg, decide_false, if_false, Bool.toNat_false] at hrest ⊢
        omega

lemma length_difference {a b : Bytes} (h : a.length = b.length) : (difference a b).length = a.length := by
  rw [difference, List.length_reverse, length_subtract (by simpa using h), List.length_reverse]

lemma beValue_difference {a b : Bytes} (h : a.length = b.length) :
    beValue (difference a b) = (beValue a + 256 ^ a.length - beValue b) % 256 ^ a.length := by
  have hlen : a.reverse.length = b.reverse.length := by simpa using h
  have hsub := leValue_subtract hlen false
  have hlt := beValue_lt (difference a b)
  have hval : beValue (difference a b) = leValue (subtract a.reverse b.reverse false).1 := by
    rw [difference, beValue, List.reverse_reverse]
  rw [length_difference h] at hlt
  rw [← hval, Bool.toNat_false, Nat.add_zero, List.length_reverse] at hsub
  change beValue (difference a b) + beValue b = beValue a + _ at hsub
  -- what is borrowed in front of the first digit is the power of the base that is added
  cases hout : (subtract a.reverse b.reverse false).2 with
  | false =>
    rw [hout, Bool.toNat_false, Nat.mul_zero, Nat.add_zero] at hsub
    have hsum : beValue a + 256 ^ a.length - beValue b = beValue (difference a b) + 256 ^ a.length := by
      omega
    rw [hsum, Nat.add_mod_right, Nat.mod_eq_of_lt hlt]
  | true =>
    rw [hout, Bool.toNat_true, Nat.mul_one] at hsub
    have hsum : beValue a + 256 ^ a.length - beValue b = beValue (difference a b) := by omega
    rw [hsum, Nat.mod_eq_of_lt hlt]

namespace Signature

open Secp256k1

variable (r s : FixedBytes 32)

lemma high_iff : High s ↔ beBytes 32 halfOrder < s.val := by
  have hlen : (beBytes 32 halfOrder).length = s.val.length := by rw [length_beBytes, s.property]
  rw [← beValue_lt_iff hlen, beValue_beBytes (by decide)]
  rfl

lemma negate_val : (negate s).val = difference (beBytes 32 n) s.val := by
  have hlen : (beBytes 32 n).length = s.val.length := by rw [length_beBytes, s.property]
  have hpow : 1 <<< 256 = 256 ^ 32 := by decide
  apply beValue_inj
  · rw [length_difference hlen, length_beBytes, (negate s).property]
  · rw [beValue_difference hlen, beValue_beBytes (by decide), length_beBytes, ← hpow]
    exact FixedBytes.toNat_ofNat 32 _

lemma low_val : (low s).val =
    if beBytes 32 halfOrder < s.val then difference (beBytes 32 n) s.val else s.val := by
  rw [low, apply_ite Subtype.val, negate_val]
  simp only [high_iff]

/-- The written `s` is the one that its bytes, compared and subtracted one at a time, lead to. -/
theorem toDer_low (h : s.toNat ≤ n) :
    ∃ s' : FixedBytes 32,
      s'.val = (if beBytes 32 halfOrder < s.val then difference (beBytes 32 n) s.val else s.val) ∧
      s'.toNat = (if s.toNat ≤ n / 2 then s.toNat else n - s.toNat) ∧ s'.toNat ≤ n / 2 ∧
      (toDer ⟨r, s⟩).length ≤ 72 ∧ ofDer (toDer ⟨r, s⟩) = .ok ⟨r, s'⟩ ∧
      toDer ⟨r, s'⟩ = toDer ⟨r, s⟩ := by
  refine ⟨low s, low_val s, toNat_low h, toNat_low_le h, (length_encode_le _).2, ofDer_encode _, ?_⟩
  rw [toDer, toDer, normalize, normalize, low_low h]

/-- The order itself is written as zero, and the first number above half the order as half the order. -/
theorem toDer_low_boundaries :
    ofDer (toDer ⟨.ofNat 32 (n / 2), .ofNat 32 n⟩) = .ok ⟨.ofNat 32 (n / 2), .zero 32⟩ ∧
      ofDer (toDer ⟨.ofNat 32 n, .ofNat 32 (n / 2 + 1)⟩) = .ok ⟨.ofNat 32 n, .ofNat 32 (n / 2)⟩ := by
  obtain ⟨s, hs, -, -, -, h, -⟩ := toDer_low (.ofNat 32 (n / 2)) (.ofNat 32 n) (by decide +kernel)
  obtain ⟨t, ht, -, -, -, h', -⟩ := toDer_low (.ofNat 32 n) (.ofNat 32 (n / 2 + 1)) (by decide +kernel)
  obtain rfl : s = .zero 32 := Subtype.ext (hs.trans (by decide +kernel))
  obtain rfl : t = .ofNat 32 (n / 2) := Subtype.ext (ht.trans (by decide +kernel))
  exact ⟨h, h'⟩

end Signature

end BitcoinTx
