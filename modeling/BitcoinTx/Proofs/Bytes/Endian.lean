import BitcoinTx.Bytes.Endian
import Mathlib.Algebra.Group.Nat.Defs
import Mathlib.Tactic.Lemma

/-! What the bytes of a number say of it: within the width, writing and reading are inverse, and numbers
compare as their bytes do. -/

namespace BitcoinTx

lemma leValue_lt (b : Bytes) : leValue b < 256 ^ b.length := by
  induction b with
  | nil => simp [leValue]
  | cons x xs ih =>
    have hx := x.toNat_lt
    simp only [leValue, List.length_cons, Nat.pow_succ]
    omega

lemma leValue_leBytes_mod (w n : Nat) : leValue (leBytes w n) = n % 256 ^ w := by
  induction w generalizing n with
  | zero => simp [leBytes, leValue, Nat.mod_one]
  | succ w ih =>
    have hw : 256 ^ (w + 1) = 256 * 256 ^ w := Nat.pow_succ'
    rw [hw, Nat.mod_mul]
    simp only [leBytes, leValue, ih, UInt8.toNat_ofNat']

lemma leValue_leBytes {w n : Nat} (h : n < 256 ^ w) : leValue (leBytes w n) = n := by
  rw [leValue_leBytes_mod, Nat.mod_eq_of_lt h]

lemma leValue_append (a b : Bytes) : leValue (a ++ b) = leValue a + 256 ^ a.length * leValue b := by
  induction a with
  | nil => simp [leValue]
  | cons x a ih =>
    rw [List.cons_append, leValue, ih, leValue, List.length_cons, Nat.pow_succ', Nat.mul_add,
      Nat.mul_assoc, Nat.add_assoc]

lemma leValue_concat (l : Bytes) (x : UInt8) :
    leValue (l ++ [x]) = leValue l + 256 ^ l.length * x.toNat := leValue_append l [x]

lemma getLast?_of_cons_ne {x : UInt8} {b : Bytes} (h : (x :: b).getLast? ≠ some 0) :
    b.getLast? ≠ some 0 := by
  intro hb
  rw [List.getLast?_cons, hb] at h
  exact h rfl

lemma eq_nil_of_leValue {b : Bytes} (hb : b.getLast? ≠ some 0) (h : leValue b = 0) : b = [] := by
  induction b with
  | nil => rfl
  | cons x b ih =>
    rw [leValue] at h
    obtain rfl := ih (getLast?_of_cons_ne hb) (by omega)
    have hx : x = 0 := UInt8.toNat_inj.mp (by rw [UInt8.toNat_zero]; omega)
    exact (hb (congrArg some hx)).elim

lemma leValue_inj {a b : Bytes} (ha : a.getLast? ≠ some 0) (hb : b.getLast? ≠ some 0)
    (h : leValue a = leValue b) : a = b := by
  induction a generalizing b with
  | nil => exact (eq_nil_of_leValue hb h.symm).symm
  | cons x a ih =>
    cases b with
    | nil => exact eq_nil_of_leValue ha h
    | cons y b =>
      have hx := x.toNat_lt
      have hy := y.toNat_lt
      rw [leValue, leValue] at h
      have hxy : x = y := UInt8.toNat_inj.mp (by omega)
      rw [hxy, ih (getLast?_of_cons_ne ha) (getLast?_of_cons_ne hb) (by omega)]

lemma beValue_cons (x : UInt8) (b : Bytes) :
    beValue (x :: b) = x.toNat * 256 ^ b.length + beValue b := by
  rw [beValue, List.reverse_cons, leValue_concat, List.length_reverse, Nat.mul_comm, Nat.add_comm]
  rfl

lemma beValue_lt (b : Bytes) : beValue b < 256 ^ b.length := by
  have h := leValue_lt b.reverse
  rwa [List.length_reverse] at h

lemma beValue_beBytes_mod (w n : Nat) : beValue (beBytes w n) = n % 256 ^ w := by
  rw [beBytes, beValue, List.reverse_reverse, leValue_leBytes_mod]

lemma beValue_beBytes {w n : Nat} (h : n < 256 ^ w) : beValue (beBytes w n) = n := by
  rw [beValue_beBytes_mod, Nat.mod_eq_of_lt h]

lemma beValue_inj {a b : Bytes} (h : a.length = b.length) (hval : beValue a = beValue b) : a = b := by
  rw [← beBytes_beValue a, ← beBytes_beValue b, h, hval]

lemma mul_add_lt_mul_add {x y a b p : Nat} (h : x < y) (ha : a < p) : x * p + a < y * p + b := by
  have hmul := Nat.mul_le_mul_right p (Nat.succ_le_of_lt h)
  rw [Nat.succ_mul] at hmul
  omega

lemma beValue_lt_iff {a b : Bytes} (h : a.length = b.length) : beValue a < beValue b ↔ a < b := by
  induction a generalizing b with
  | nil =>
    rw [List.eq_nil_of_length_eq_zero h.symm]
    simp [beValue, leValue]
  | cons x a ih =>
    cases b with
    | nil => contradiction
    | cons y b =>
      have hlen : a.length = b.length := Nat.succ.inj h
      have ha := beValue_lt a
      have hb := beValue_lt b
      rw [List.cons_lt_cons_iff, ← ih hlen, beValue_cons, beValue_cons, ← hlen, UInt8.lt_iff_toNat_lt,
        ← UInt8.toNat_inj]
      rw [← hlen] at hb
      obtain hxy | hxy | hxy := Nat.lt_trichotomy x.toNat y.toNat
      · exact iff_of_true (mul_add_lt_mul_add hxy ha) (.inl hxy)
      · rw [hxy]
        omega
      · exact iff_of_false (Nat.lt_asymm (mul_add_lt_mul_add hxy hb)) (by omega)

lemma FixedBytes.toNat_ofNat (n v : Nat) : (FixedBytes.ofNat n v).toNat = v % 256 ^ n :=
  beValue_beBytes_mod n v

end BitcoinTx
