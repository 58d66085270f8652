import BitcoinTx.Bytes.Digits
import Mathlib.Data.Nat.Digits.Lemmas
import Mathlib.Tactic.Lemma

/-! A list of digits, most significant first, is a count of leading zeros and a number. -/

namespace BitcoinTx

variable {b n z : Nat} {ds : List Nat}

lemma digits_eq (hb : 1 < b) (n : Nat) : digits b n = Nat.digits b n := by
  induction n using Nat.strong_induction_on with
  | _ n ih =>
    rw [digits]
    split
    next h => rw [Nat.digits_def' hb h.2, ih _ (Nat.div_lt_self h.2 hb)]
    next h =>
      have hn : n = 0 := Nat.eq_zero_of_not_pos fun hn => h ⟨hb, hn⟩
      rw [hn, Nat.digits_zero]

lemma ofDigits_eq (b : Nat) (ds : List Nat) : ofDigits b ds = Nat.ofDigits b ds :=
  (Nat.ofDigits_eq_foldr b ds).symm

def leadingZeros (ds : List Nat) : Nat := (ds.takeWhile (· = 0)).length

def padded (b z n : Nat) : List Nat := List.replicate z 0 ++ (digits b n).reverse

lemma lt_of_mem_padded (hb : 1 < b) {d : Nat} (h : d ∈ padded b z n) : d < b := by
  rw [padded, digits_eq hb, List.mem_append, List.mem_reverse] at h
  rcases h with h | h
  · exact List.eq_of_mem_replicate h ▸ Nat.zero_lt_of_lt hb
  · exact Nat.digits_lt_base hb h

lemma takeWhile_of_head (h : ds.head? ≠ some 0) : ds.takeWhile (· = 0) = [] := by
  cases ds with
  | nil => rfl
  | cons d ds => exact List.takeWhile_cons_of_neg (by simpa using h)

lemma head?_reverse_digits (hb : 1 < b) : (digits b n).reverse.head? ≠ some 0 := by
  rw [digits_eq hb, List.head?_reverse]
  by_cases hn : n = 0
  · simp [hn]
  · rw [List.getLast?_eq_some_getLast (Nat.digits_ne_nil_iff_ne_zero.mpr hn)]
    exact fun h => Nat.getLast_digit_ne_zero b hn (Option.some.inj h)

lemma leadingZeros_padded (hb : 1 < b) : leadingZeros (padded b z n) = z := by
  rw [leadingZeros, padded, List.takeWhile_append_of_pos (by simp),
    takeWhile_of_head (head?_reverse_digits hb), List.append_nil, List.length_replicate]

lemma ofDigits_padded (hb : 1 < b) : ofDigits b (padded b z n).reverse = n := by
  rw [ofDigits_eq, padded, digits_eq hb, List.reverse_append, List.reverse_reverse,
    List.reverse_replicate, Nat.ofDigits_append_replicate_zero, Nat.ofDigits_digits]

lemma padded_of_head (hb : 1 < b) (hds : ∀ d ∈ ds, d < b) (hhead : ds.head? ≠ some 0) :
    (digits b (ofDigits b ds.reverse)).reverse = ds := by
  rw [digits_eq hb, ofDigits_eq, Nat.digits_ofDigits b hb, List.reverse_reverse]
  · exact fun d hd => hds d (List.mem_reverse.mp hd)
  · intro hne hlast
    rw [List.getLast_reverse] at hlast
    exact hhead (hlast ▸ List.head?_eq_some_head _)

lemma padded_leadingZeros (hb : 1 < b) (hds : ∀ d ∈ ds, d < b) :
    padded b (leadingZeros ds) (ofDigits b ds.reverse) = ds := by
  -- a zero in front is counted and does not change the number; any other digit ends the count
  induction ds with
  | nil => exact padded_of_head hb hds (by simp)
  | cons d ds ih =>
    rcases Nat.eq_zero_or_pos d with rfl | hd
    · have hvalue : ofDigits b (0 :: ds).reverse = ofDigits b ds.reverse := by
        rw [ofDigits_eq, ofDigits_eq, Nat.ofDigits_reverse_zero_cons]
      have hzeros : leadingZeros (0 :: ds) = leadingZeros ds + 1 := by simp [leadingZeros]
      rw [hvalue, hzeros, padded, List.replicate_succ, List.cons_append, ← padded,
        ih fun d hd => hds d (List.mem_cons_of_mem 0 hd)]
    · have hhead : (d :: ds).head? ≠ some 0 := by simp [hd.ne']
      rw [leadingZeros, takeWhile_of_head hhead, padded, List.length_nil, List.replicate_zero,
        List.nil_append]
      exact padded_of_head hb hds hhead

end BitcoinTx
