import BitcoinTx.Eval.Number
import BitcoinTx.Proofs.Bytes.Endian
import Mathlib.Data.List.Basic

/-! Every number has one minimal form, which is written and from which the number is read back. -/

namespace BitcoinTx.ScriptNumber

variable {n k max : Nat} {v : Int} {b l : Bytes} {x y : UInt8}

lemma magnitude_zero : magnitude 0 = [] := by
  rw [magnitude, digits, dif_neg (by omega)]
  rfl

lemma magnitude_of_pos (h : 0 < n) : magnitude n = UInt8.ofNat n :: magnitude (n / 256) := by
  have hbyte : UInt8.ofNat (n % 256) = UInt8.ofNat n := UInt8.toNat_inj.mp (by simp)
  rw [magnitude, digits, dif_pos ⟨by decide, h⟩, List.map_cons, hbyte]
  rfl

lemma leValue_magnitude (n : Nat) : leValue (magnitude n) = n := by
  induction n using Nat.strongRecOn with
  | ind n ih =>
    obtain rfl | h := Nat.eq_zero_or_pos n
    · rw [magnitude_zero]
      rfl
    · rw [magnitude_of_pos h, leValue, ih _ (Nat.div_lt_self h (by decide)), UInt8.toNat_ofNat']
      omega

lemma getLast?_magnitude (n : Nat) : (magnitude n).getLast? ≠ some 0 := by
  induction n using Nat.strongRecOn with
  | ind n ih =>
    obtain rfl | h := Nat.eq_zero_or_pos n
    · simp [magnitude_zero]
    have hrest := ih _ (Nat.div_lt_self h (by decide : 1 < 256))
    rw [magnitude_of_pos h, List.getLast?_cons]
    cases hm : (magnitude (n / 256)).getLast? with
    | some y =>
      rw [hm] at hrest
      exact hrest
    | none =>
      -- the highest digit, which is the number that is left
      have hval := leValue_magnitude (n / 256)
      rw [List.getLast?_eq_none_iff.mp hm, leValue] at hval
      intro h₀
      have hn := congrArg UInt8.toNat (Option.some.inj h₀)
      rw [Option.getD_none, UInt8.toNat_ofNat', UInt8.toNat_zero] at hn
      omega

lemma magnitude_leValue (h : b.getLast? ≠ some 0) : magnitude (leValue b) = b :=
  leValue_inj (getLast?_magnitude _) h (leValue_magnitude _)

lemma exists_magnitude (h : v ≠ 0) : ∃ l y, magnitude v.natAbs = l ++ [y] ∧ y ≠ 0 := by
  obtain hm | ⟨l, y, hm⟩ := List.eq_nil_or_concat' (magnitude v.natAbs)
  · have hval := leValue_magnitude v.natAbs
    rw [hm, leValue] at hval
    omega
  · have hlast := getLast?_magnitude v.natAbs
    rw [hm, List.getLast?_concat] at hlast
    exact ⟨l, y, hm, fun h => hlast (congrArg some h)⟩

def signBit (v : Int) : UInt8 := if v < 0 then 0x80 else 0

lemma encode_of_magnitude (h : magnitude v.natAbs = l ++ [y]) :
    encode v = if 0x80 ≤ y then l ++ [y] ++ [signBit v] else l ++ [y ||| signBit v] := by
  rw [encode, h, signBit]
  simp only [List.getLast?_concat, List.dropLast_concat]
  split
  · rfl
  · split
    · rfl
    · rw [UInt8.or_zero]

lemma toNat_land (x : UInt8) : (x &&& 0x7f).toNat = x.toNat % 0x80 := by
  rw [UInt8.toNat_and]
  exact Nat.and_two_pow_sub_one_eq_mod x.toNat 7

lemma land_lt (x : UInt8) : x &&& 0x7f < 0x80 := by
  rw [UInt8.lt_iff_toNat_lt, toNat_land]
  exact Nat.mod_lt _ (by decide)

lemma toNat_lor (h : x < 0x80) : (x ||| 0x80).toNat = x.toNat + 0x80 := by
  have hx : x.toNat < 2 ^ 7 := UInt8.lt_iff_toNat_lt.mp h
  rw [UInt8.toNat_or, Nat.or_comm, Nat.add_comm]
  exact (Nat.two_pow_add_eq_or_of_lt hx 1).symm

lemma lor_signBit (h : y < 0x80) : (y ||| signBit v).toNat % 0x80 = y.toNat ∧
    (0x80 ≤ y ||| signBit v ↔ v < 0) := by
  have hy : y.toNat < 0x80 := UInt8.lt_iff_toNat_lt.mp h
  rw [signBit, UInt8.le_iff_toNat_le]
  change _ ∧ (0x80 ≤ _ ↔ _)
  split
  · next hv =>
    rw [toNat_lor h]
    omega
  · next hv =>
    rw [UInt8.or_zero]
    omega

lemma toNat_signBit_mod (v : Int) : (signBit v).toNat % 0x80 = 0 := by
  rw [signBit]
  split <;> rfl

lemma le_signBit_iff : 0x80 ≤ signBit v ↔ v < 0 := by
  rw [signBit]
  split
  · next hv => exact ⟨fun _ => hv, fun _ => by decide⟩
  · next hv => exact ⟨fun h => absurd h (by decide), fun h => absurd h hv⟩

lemma value_concat (l : Bytes) (x : UInt8) : value (l ++ [x]) =
    if 0x80 ≤ x then -((leValue l + 256 ^ l.length * (x.toNat % 0x80) : Nat) : Int)
    else (leValue l + 256 ^ l.length * (x.toNat % 0x80) : Nat) := by
  simp only [value, List.getLast?_concat, List.dropLast_concat, leValue_concat, toNat_land]

lemma natAbs_value_concat (l : Bytes) (x : UInt8) :
    (value (l ++ [x])).natAbs = leValue l + 256 ^ l.length * (x.toNat % 0x80) := by
  rw [value_concat]
  split
  · rw [Int.natAbs_neg, Int.natAbs_natCast]
  · rw [Int.natAbs_natCast]

lemma value_lt_zero_iff (h : value (l ++ [x]) ≠ 0) : value (l ++ [x]) < 0 ↔ 0x80 ≤ x := by
  rw [value_concat] at *
  by_cases hx : 0x80 ≤ x
  · rw [if_pos hx] at *
    exact ⟨fun _ => hx, fun _ => by omega⟩
  · rw [if_neg hx] at *
    exact ⟨fun hneg => by omega, fun h => absurd h hx⟩

lemma land_eq_zero_iff : x &&& 0x7f = 0 ↔ x.toNat % 0x80 = 0 := by
  rw [← UInt8.toNat_inj, toNat_land, UInt8.toNat_zero]

lemma land_lor_signBit (h : v < 0 ↔ 0x80 ≤ x) : (x &&& 0x7f) ||| signBit v = x := by
  have hx := x.toNat_lt
  apply UInt8.toNat_inj.mp
  rw [signBit]
  simp only [h, UInt8.le_iff_toNat_le]
  change (x &&& 0x7f ||| if 0x80 ≤ x.toNat then 0x80 else 0).toNat = x.toNat
  split
  · rw [toNat_lor (land_lt x), toNat_land]
    omega
  · rw [UInt8.or_zero, toNat_land]
    omega

lemma isMinimal_concat : isMinimal (l ++ [x]) = true ↔
    x.toNat % 0x80 ≠ 0 ∨ ∃ l' y, l = l' ++ [y] ∧ 0x80 ≤ y := by
  simp only [isMinimal, List.getLast?_concat, List.dropLast_concat, Bool.or_eq_true,
    decide_eq_true_eq, ne_eq, land_eq_zero_iff]
  apply or_congr_right
  obtain rfl | ⟨l', y, rfl⟩ := List.eq_nil_or_concat' l
  · simp
  · rw [List.getLast?_concat]
    constructor
    · exact fun hy => ⟨l', y, rfl, of_decide_eq_true hy⟩
    · rintro ⟨_, z, h, hz⟩
      obtain ⟨-, rfl⟩ := List.append_singleton_inj.mp h
      exact decide_eq_true hz

lemma isMinimal_encode (v : Int) : isMinimal (encode v) = true := by
  by_cases h : v = 0
  · rw [h, encode]
    simp [magnitude_zero, isMinimal]
  obtain ⟨l, y, hm, hy⟩ := exists_magnitude h
  rw [encode_of_magnitude hm]
  split
  · next hhigh => exact isMinimal_concat.mpr (.inr ⟨l, y, rfl, hhigh⟩)
  · next hlow =>
    refine isMinimal_concat.mpr (.inl ?_)
    rw [(lor_signBit (UInt8.not_le.mp hlow)).1]
    exact fun h₀ => hy (UInt8.toNat_inj.mp h₀)

lemma value_encode (v : Int) : value (encode v) = v := by
  by_cases h : v = 0
  · rw [h, encode]
    simp [magnitude_zero, value]
  obtain ⟨l, y, hm, -⟩ := exists_magnitude h
  have hval := leValue_magnitude v.natAbs
  rw [hm] at hval
  rw [encode_of_magnitude hm]
  split
  · rw [value_concat, toNat_signBit_mod, Nat.mul_zero, Nat.add_zero, hval]
    simp only [le_signBit_iff]
    omega
  · next hlow =>
    obtain ⟨hdigit, hsign⟩ := lor_signBit (v := v) (UInt8.not_le.mp hlow)
    rw [value_concat, hdigit, ← leValue_concat, hval]
    simp only [hsign]
    omega

lemma natAbs_value_lt (b : Bytes) : 2 * (value b).natAbs < 256 ^ b.length := by
  obtain rfl | ⟨l, x, rfl⟩ := List.eq_nil_or_concat' b
  · decide
  have hl := leValue_lt l
  have hx : x.toNat % 0x80 ≤ 0x7f := by omega
  have hdigit := Nat.mul_le_mul_left (256 ^ l.length) hx
  rw [natAbs_value_concat, List.length_append, List.length_singleton, Nat.pow_succ]
  omega

-- the last byte of a minimal form is needed, as the number does not fit on fewer
lemma le_natAbs_value (h : isMinimal (l ++ [x]) = true) :
    256 ^ l.length ≤ 2 * (value (l ++ [x])).natAbs := by
  rw [natAbs_value_concat]
  obtain hx | ⟨l', y, rfl, hy⟩ := isMinimal_concat.mp h
  · have hdigit := Nat.mul_le_mul_left (256 ^ l.length) (Nat.one_le_iff_ne_zero.mpr hx)
    omega
  · have hdigit := Nat.mul_le_mul_left (256 ^ l'.length) (UInt8.le_iff_toNat_le.mp hy)
    change 256 ^ l'.length * 0x80 ≤ _ at hdigit
    rw [leValue_concat, List.length_append, List.length_singleton, Nat.pow_succ]
    omega

lemma magnitude_value_of_digit (h : x.toNat % 0x80 ≠ 0) :
    magnitude (value (l ++ [x])).natAbs = l ++ [x &&& 0x7f] := by
  rw [natAbs_value_concat, ← toNat_land, ← leValue_concat]
  apply magnitude_leValue
  rw [List.getLast?_concat]
  exact fun h₀ => h (land_eq_zero_iff.mp (Option.some.inj h₀))

lemma magnitude_value_of_sign (h : x.toNat % 0x80 = 0) (hy : 0x80 ≤ y) :
    magnitude (value (l ++ [y] ++ [x])).natAbs = l ++ [y] := by
  rw [natAbs_value_concat, h, Nat.mul_zero, Nat.add_zero]
  apply magnitude_leValue
  rw [List.getLast?_concat]
  exact fun h₀ => absurd (Option.some.inj h₀ ▸ hy) (by decide)

lemma encode_value (h : isMinimal b = true) : encode (value b) = b := by
  obtain rfl | ⟨l, x, rfl⟩ := List.eq_nil_or_concat' b
  · simp [value, encode, magnitude_zero]
  have hpow : 0 < 256 ^ l.length := Nat.pow_pos (by decide)
  have hle := le_natAbs_value h
  have hsign := land_lor_signBit (value_lt_zero_iff (l := l) (x := x) (by omega))
  -- the last byte holds the sign alone, or the highest digit with it
  by_cases hx : x.toNat % 0x80 = 0
  · obtain hdigit | ⟨l', y, rfl, hy⟩ := isMinimal_concat.mp h
    · exact absurd hx hdigit
    rw [land_eq_zero_iff.mpr hx, UInt8.zero_or] at hsign
    rw [encode_of_magnitude (magnitude_value_of_sign hx hy), if_pos hy, hsign]
  · rw [encode_of_magnitude (magnitude_value_of_digit hx), if_neg (UInt8.not_le.mpr (land_lt x)), hsign]

lemma length_encode_le_iff : (encode v).length ≤ k ↔ 2 * v.natAbs < 256 ^ k := by
  constructor
  · intro h
    have hlt := natAbs_value_lt (encode v)
    rw [value_encode] at hlt
    exact Nat.lt_of_lt_of_le hlt (Nat.pow_le_pow_right (by decide) h)
  · intro h
    obtain hb | ⟨l, x, hb⟩ := List.eq_nil_or_concat' (encode v)
    · rw [hb]
      exact Nat.zero_le k
    have hle := le_natAbs_value (hb ▸ isMinimal_encode v)
    rw [← hb, value_encode] at hle
    rw [hb, List.length_append, List.length_singleton]
    exact (Nat.pow_lt_pow_iff_right (by decide)).mp (Nat.lt_of_le_of_lt hle h)

lemma decode_ok_iff : decode b max true = .ok v ↔ b.length ≤ min max maxSize ∧ b = encode v := by
  rw [decode]
  split
  · next hsize =>
    exact ⟨fun h => (by cases h), fun h => absurd h.1 (Nat.not_le_of_lt hsize)⟩
  · next hsize =>
    rw [Bool.true_and]
    cases hmin : isMinimal b with
    | false =>
      refine ⟨fun h => (by cases h), ?_⟩
      rintro ⟨-, rfl⟩
      exact absurd (isMinimal_encode v) (by rw [hmin]; decide)
    | true =>
      constructor
      · intro h
        obtain rfl := Except.ok.inj h
        exact ⟨Nat.le_of_not_lt hsize, (encode_value hmin).symm⟩
      · rintro ⟨-, rfl⟩
        exact congrArg Except.ok (value_encode v)

@[simp] lemma encode_zero : encode 0 = [] := encode_value (b := []) rfl

lemma encode_neg_one : encode (-1) = [0x81] := encode_value (b := [0x81]) rfl

lemma encode_of_lt (h₀ : 0 < n) (h : n < 128) : encode n = [UInt8.ofNat n] := by
  have hbyte : ∀ k < 128, 0 < k →
      isMinimal [UInt8.ofNat k] = true ∧ value [UInt8.ofNat k] = k := by decide
  obtain ⟨hmin, hval⟩ := hbyte n h h₀
  rw [← hval, encode_value hmin]

lemma decode_encode_of_lt (h : n < 128) (hmax : 0 < max) : decode (encode n) max true = .ok n := by
  have hlen : (encode n).length ≤ 1 := length_encode_le_iff.mpr (by omega)
  exact decode_ok_iff.mpr ⟨Nat.le_trans hlen (Nat.le_min.mpr ⟨hmax, by decide⟩), rfl⟩

lemma natAbs_value_cons (h : b ≠ []) : (value (x :: b)).natAbs = x.toNat + 256 * (value b).natAbs := by
  obtain rfl | ⟨l, y, rfl⟩ := List.eq_nil_or_concat' b
  · contradiction
  rw [← List.cons_append, natAbs_value_concat, natAbs_value_concat, leValue,
    List.length_cons, Nat.pow_succ', Nat.mul_assoc]
  omega

lemma isTrue_iff (b : Bytes) : isTrue b = true ↔ value b ≠ 0 := by
  fun_induction isTrue b with
  | case1 => exact ⟨fun h => absurd h (by decide), fun h => absurd rfl h⟩
  | case2 x =>
    have hval := natAbs_value_concat [] x
    have hx := x.toNat_lt
    simp only [List.nil_append, leValue, List.length_nil, Nat.pow_zero] at hval
    simp only [Bool.and_eq_true, decide_eq_true_eq, ne_eq, ← UInt8.toNat_inj]
    change ¬ x.toNat = 0 ∧ ¬ x.toNat = 0x80 ↔ _
    omega
  | case3 x b hb ih =>
    have hval := natAbs_value_cons (x := x) hb
    rw [Bool.or_eq_true, decide_eq_true_eq, ih, ne_eq, ← UInt8.toNat_inj, UInt8.toNat_zero]
    omega

/-- The numbers whose digits and sign fit on `k` bytes. -/
def HoldsOn (k : Nat) (v : Int) : Prop := if k = 0 then v = 0 else v.natAbs < 2 ^ (8 * k - 1)

instance (k : Nat) (v : Int) : Decidable (HoldsOn k v) :=
  inferInstanceAs (Decidable (if k = 0 then v = 0 else v.natAbs < 2 ^ (8 * k - 1)))

lemma holdsOn_iff : HoldsOn k v ↔ (encode v).length ≤ k := by
  rw [HoldsOn, length_encode_le_iff]
  cases k with
  | zero =>
    rw [if_pos rfl]
    omega
  | succ k =>
    have hpow : 256 ^ (k + 1) = 2 * 2 ^ (8 * (k + 1) - 1) := by
      rw [← Nat.pow_succ', show 256 = 2 ^ 8 by decide, ← Nat.pow_mul]
      congr 1
    rw [if_neg (Nat.succ_ne_zero k), hpow]
    omega

/-- Up to eight bytes a number is read back from its bytes where it fits, and from no other bytes where the
shortest form is asked for; read in any form it is zero exactly when its bytes are false. -/
theorem decode_encode_exact :
    (∀ (v : Int) (k : Nat), k ≤ 8 →
      (HoldsOn k v → (encode v).length ≤ k ∧ decode (encode v) k true = .ok v) ∧
        (¬ HoldsOn k v → decode (encode v) k true = .error (.numberSize (encode v) k))) ∧
      (∀ (b : Bytes) (max : Nat) (v : Int), decode b max true = .ok v → encode v = b) ∧
      ∀ b : Bytes, b.length ≤ 8 → ∃ v, decode b 8 false = .ok v ∧ (isTrue b = true ↔ v ≠ 0) := by
  refine ⟨fun v k hk => ?_, fun b max v h => (decode_ok_iff.mp h).2.symm, fun b hb => ?_⟩
  · have hmin : min k maxSize = k := Nat.min_eq_left hk
    rw [holdsOn_iff]
    refine ⟨fun h => ⟨h, decode_ok_iff.mpr ⟨hmin.symm ▸ h, rfl⟩⟩, fun h => ?_⟩
    rw [decode, hmin, if_pos (Nat.lt_of_not_le h)]
  · have hsize : ¬ min 8 maxSize < b.length := Nat.not_lt.mpr hb
    refine ⟨value b, ?_, isTrue_iff b⟩
    rw [decode, if_neg hsize]
    rfl

/-- The numbers of 64 bits next to the end of the range of eight bytes, a sign byte of its own, and a zero
with a sign. -/
theorem decode_encode_exact_extremes :
    decode (encode (-0x7fffffffffffffff)) 8 true = .ok (-0x7fffffffffffffff) ∧
      decode (encode (-0x8000000000000000)) 8 true =
        .error (.numberSize (encode (-0x8000000000000000)) 8) ∧
      encode (-128) = [0x80, 0x80] ∧ isTrue [0, 0, 0, 0, 0, 0, 0, 0x80] = false := by
  obtain ⟨hcodec, hshortest, htrue⟩ := decode_encode_exact
  have hlow := (hcodec (-0x7fffffffffffffff) 8 (Nat.le_refl 8)).1
  have hmin := (hcodec (-0x8000000000000000) 8 (Nat.le_refl 8)).2
  obtain ⟨v, hv, hiff⟩ := htrue [0, 0, 0, 0, 0, 0, 0, 0x80] (by decide)
  refine ⟨(hlow (by decide)).2, hmin (by decide), hshortest [0x80, 0x80] 4 (-128) rfl, ?_⟩
  obtain rfl : 0 = v := Except.ok.inj hv
  exact Bool.eq_false_iff.mpr fun h => hiff.mp h rfl

end BitcoinTx.ScriptNumber
