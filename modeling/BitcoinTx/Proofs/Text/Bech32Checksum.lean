import BitcoinTx.Text.Bech32
import Mathlib.Algebra.Group.Nat.Defs
import Mathlib.Tactic.Lemma

/-! The checksum of witness programs. The last six symbols enter the polynomial as they are, so exactly
one choice of them makes it come to a given constant. -/

namespace BitcoinTx.Bech32

variable {l cs : List Nat}

def addIf (top : Nat) (s : UInt32) (g : UInt32 × Nat) : UInt32 :=
  if top.testBit g.2 then s ^^^ g.1 else s

/-- Those of `gs` that the bits of `top` select, added to `s`. -/
def addSelected (top : Nat) (gs : List (UInt32 × Nat)) (s : UInt32) : UInt32 :=
  gs.foldl (addIf top) s

lemma polymodStep_eq (s : UInt32) (c : Nat) :
    polymodStep s c =
      addSelected (s >>> 25).toNat generators.zipIdx
        (((s &&& 0x1ffffff) <<< 5) ^^^ UInt32.ofNat c) := rfl

lemma addIf_xor (top : Nat) (s d : UInt32) (g : UInt32 × Nat) :
    addIf top (s ^^^ d) g = addIf top s g ^^^ d := by
  rw [addIf, addIf]
  split
  · rw [UInt32.xor_assoc, UInt32.xor_comm d, UInt32.xor_assoc]
  · rfl

lemma addSelected_xor (top : Nat) (gs : List (UInt32 × Nat)) (s d : UInt32) :
    addSelected top gs (s ^^^ d) = addSelected top gs s ^^^ d := by
  induction gs generalizing s with
  | nil => rfl
  | cons g gs ih =>
    change addSelected top gs (addIf top (s ^^^ d) g) = _
    rw [addIf_xor, ih]
    rfl

lemma addSelected_lt (top : Nat) {gs : List (UInt32 × Nat)} (hgs : ∀ g ∈ gs, g.1.toNat < 2 ^ 30)
    {s : UInt32} (hs : s.toNat < 2 ^ 30) : (addSelected top gs s).toNat < 2 ^ 30 := by
  induction gs generalizing s with
  | nil => exact hs
  | cons g gs ih =>
    obtain ⟨hg, hgs⟩ := List.forall_mem_cons.mp hgs
    refine ih hgs ?_
    rw [addIf]
    split
    · rw [UInt32.toNat_xor]
      exact Nat.xor_lt_two_pow hs hg
    · exact hs

lemma toNat_ofNat_of_low {d : Nat} (hd : d < 2 ^ 25) : (UInt32.ofNat d).toNat = d :=
  UInt32.toNat_ofNat_of_lt (Nat.lt_trans hd (by decide))

lemma shiftRight_ofNat {d : Nat} (hd : d < 2 ^ 25) : UInt32.ofNat d >>> 25 = 0 := by
  refine UInt32.toNat_inj.mp ?_
  rw [UInt32.toNat_shiftRight, toNat_ofNat_of_low hd]
  exact Nat.shiftRight_eq_zero d 25 hd

lemma and_shiftLeft_ofNat {d : Nat} (hd : d < 2 ^ 25) :
    (UInt32.ofNat d &&& 0x1ffffff) <<< 5 = UInt32.ofNat (32 * d) := by
  have hand : UInt32.ofNat d &&& 0x1ffffff = UInt32.ofNat d := by
    refine UInt32.toNat_inj.mp ?_
    rw [UInt32.toNat_and, toNat_ofNat_of_low hd]
    exact Nat.and_two_pow_sub_one_of_lt_two_pow hd
  have hshift : UInt32.ofNat d <<< 5 = UInt32.ofNat (d <<< 5) :=
    (UInt32.ofNat_shiftLeft d 5 (by decide)).symm
  rw [hand, hshift, Nat.shiftLeft_eq, Nat.mul_comm]

lemma and_xor_distrib (s d m : UInt32) : (s ^^^ d) &&& m = (s &&& m) ^^^ (d &&& m) := by
  refine UInt32.toNat_inj.mp ?_
  simp only [UInt32.toNat_and, UInt32.toNat_xor, Nat.and_xor_distrib_right]

lemma two_pow_mul_xor_of_lt {w d c : Nat} (hc : c < 2 ^ w) : 2 ^ w * d ^^^ c = 2 ^ w * d + c := by
  refine Nat.eq_of_testBit_eq fun i => ?_
  rw [Nat.testBit_xor, Nat.testBit_two_pow_mul, Nat.testBit_two_pow_mul_add d hc]
  by_cases hi : i < w
  · simp [hi, Nat.not_le_of_lt hi]
  · have hle : w ≤ i := Nat.le_of_not_lt hi
    have hlow : c.testBit i = false :=
      Nat.testBit_lt_two_pow (Nat.lt_of_lt_of_le hc (Nat.pow_le_pow_right (by decide) hle))
    simp [hi, hle, hlow]

lemma polymodStep_xor (s : UInt32) {d c : Nat} (hd : d < 2 ^ 25) (hc : c < 32) :
    polymodStep (s ^^^ UInt32.ofNat d) c = polymodStep s 0 ^^^ UInt32.ofNat (32 * d + c) := by
  have htop : (s ^^^ UInt32.ofNat d) >>> 25 = s >>> 25 := by
    rw [UInt32.shiftRight_xor, shiftRight_ofNat hd, UInt32.xor_zero]
  have hlow : ((s ^^^ UInt32.ofNat d) &&& 0x1ffffff) <<< 5 =
      ((s &&& 0x1ffffff) <<< 5) ^^^ UInt32.ofNat (32 * d) := by
    rw [and_xor_distrib, UInt32.shiftLeft_xor, and_shiftLeft_ofNat hd]
  have hjoin : UInt32.ofNat (32 * d) ^^^ UInt32.ofNat c = UInt32.ofNat (32 * d + c) := by
    rw [← UInt32.ofNat_xor]
    exact congrArg UInt32.ofNat (two_pow_mul_xor_of_lt (w := 5) hc)
  have hzero : UInt32.ofNat 0 = 0 := rfl
  rw [polymodStep_eq, polymodStep_eq, htop, hlow, UInt32.xor_assoc, hjoin, addSelected_xor,
    hzero, UInt32.xor_zero]

/-- The number that symbols stand for behind a number `d`, most significant first. -/
def value (d : Nat) (cs : List Nat) : Nat := cs.foldl (fun d c => 32 * d + c) d

lemma foldl_polymodStep_xor (s : UInt32) {d k : Nat} (hd : d < 32 ^ k) (hk : k + cs.length ≤ 6)
    (hcs : ∀ c ∈ cs, c < 32) :
    cs.foldl polymodStep (s ^^^ UInt32.ofNat d) =
      (List.replicate cs.length 0).foldl polymodStep s ^^^ UInt32.ofNat (value d cs) := by
  -- `d` has `k ≤ 5` symbols when the next one comes, so that none of its bits selects a generator
  induction cs generalizing s d k with
  | nil => rfl
  | cons c cs ih =>
    obtain ⟨hc, hcs⟩ := List.forall_mem_cons.mp hcs
    rw [List.length_cons] at hk
    have hlow : d < 32 ^ 5 :=
      Nat.lt_of_lt_of_le hd (Nat.pow_le_pow_right (by decide) (by omega))
    have hnext : 32 * d + c < 32 ^ (k + 1) := by
      rw [Nat.pow_succ]
      omega
    rw [List.foldl_cons, polymodStep_xor s hlow hc, ih (polymodStep s 0) hnext (by omega) hcs]
    rfl

lemma polymod_append (hlen : cs.length = 6) (hcs : ∀ c ∈ cs, c < 32) :
    polymod (l ++ cs) = polymod (l ++ List.replicate 6 0) ^^^ UInt32.ofNat (value 0 cs) := by
  have h := foldl_polymodStep_xor (l.foldl polymodStep 1) (d := 0) (k := 0) (by decide)
    (by omega) hcs
  rw [hlen] at h
  rw [polymod, polymod, List.foldl_append, List.foldl_append, ← h]
  exact congrArg (cs.foldl polymodStep) UInt32.xor_zero.symm

lemma polymodStep_lt (s : UInt32) {c : Nat} (hc : c < 32) : (polymodStep s c).toNat < 2 ^ 30 := by
  refine addSelected_lt _ (by decide) ?_
  rw [UInt32.toNat_xor]
  refine Nat.xor_lt_two_pow ?_ ?_
  · have hand : (s &&& 0x1ffffff).toNat = s.toNat % 2 ^ 25 :=
      Nat.and_two_pow_sub_one_eq_mod s.toNat 25
    have hshift : ((s &&& 0x1ffffff) <<< 5).toNat = ((s &&& 0x1ffffff).toNat <<< 5) % 2 ^ 32 :=
      UInt32.toNat_shiftLeft ..
    rw [hshift, hand, Nat.shiftLeft_eq]
    omega
  · rw [toNat_ofNat_of_low (Nat.lt_trans hc (by decide))]
    exact Nat.lt_trans hc (by decide)

lemma polymod_lt (hl : ∀ c ∈ l, c < 32) : (polymod l).toNat < 2 ^ 30 := by
  have hfold : ∀ s : UInt32, s.toNat < 2 ^ 30 → (l.foldl polymodStep s).toNat < 2 ^ 30 := by
    induction l with
    | nil => exact fun s hs => hs
    | cons c l ih =>
      obtain ⟨hc, hl⟩ := List.forall_mem_cons.mp hl
      exact fun s _ => ih hl _ (polymodStep_lt s hc)
  exact hfold 1 (by decide)

def sixSymbols (n : Nat) : List Nat := [25, 20, 15, 10, 5, 0].map fun i => (n >>> i) % 32

lemma sixSymbols_lt (n : Nat) : ∀ c ∈ sixSymbols n, c < 32 :=
  List.forall_mem_map.mpr fun _ _ => Nat.mod_lt _ (by decide)

lemma value_sixSymbols {n : Nat} (h : n < 2 ^ 30) : value 0 (sixSymbols n) = n := by
  simp only [sixSymbols, value, List.map_cons, List.map_nil, List.foldl_cons, List.foldl_nil,
    Nat.shiftRight_eq_div_pow]
  omega

lemma sixSymbols_value (hlen : cs.length = 6) (hcs : ∀ c ∈ cs, c < 32) :
    value 0 cs < 2 ^ 30 ∧ sixSymbols (value 0 cs) = cs := by
  match cs, hlen with
  | [c₁, c₂, c₃, c₄, c₅, c₆], _ =>
    simp only [List.forall_mem_cons] at hcs
    obtain ⟨h₁, h₂, h₃, h₄, h₅, h₆, -⟩ := hcs
    simp only [sixSymbols, value, List.map_cons, List.map_nil, List.foldl_cons, List.foldl_nil,
      Nat.shiftRight_eq_div_pow, List.cons.injEq, and_true]
    omega

variable {hrp : Bytes} {version : Nat} {data : List Nat}

lemma checksum_eq (hrp : Bytes) (version : Nat) (data : List Nat) :
    checksum hrp version data =
      sixSymbols (polymod (expand hrp ++ data ++ List.replicate 6 0) ^^^ target version).toNat := rfl

lemma lt_of_mem_expand {c : Nat} (h : c ∈ expand hrp) : c < 32 := by
  rw [expand, List.mem_append, List.mem_cons] at h
  obtain h | rfl | h := h
  · obtain ⟨x, -, rfl⟩ := List.mem_map.mp h
    have hx := x.toNat_lt
    omega
  · decide
  · obtain ⟨x, -, rfl⟩ := List.mem_map.mp h
    exact Nat.mod_lt _ (by decide)

lemma target_lt (version : Nat) : (target version).toNat < 2 ^ 30 := by
  rw [target]
  split <;> decide

theorem polymod_eq_target_iff (hdata : ∀ c ∈ data, c < 32) (hlen : cs.length = 6)
    (hcs : ∀ c ∈ cs, c < 32) :
    polymod (expand hrp ++ data ++ cs) = target version ↔ cs = checksum hrp version data := by
  have hall : ∀ c ∈ expand hrp ++ data ++ List.replicate 6 0, c < 32 := by
    intro c hc
    rw [List.mem_append, List.mem_append] at hc
    obtain (hc | hc) | hc := hc
    · exact lt_of_mem_expand hc
    · exact hdata c hc
    · exact List.eq_of_mem_replicate hc ▸ by decide
  have hlt := polymod_lt hall
  rw [polymod_append hlen hcs, checksum_eq]
  generalize polymod (expand hrp ++ data ++ List.replicate 6 0) = p at hlt
  obtain ⟨hvalue, hsix⟩ := sixSymbols_value hlen hcs
  have hnat : (UInt32.ofNat (value 0 cs)).toNat = value 0 cs :=
    UInt32.toNat_ofNat_of_lt (Nat.lt_trans hvalue (by decide))
  constructor
  · intro h
    have hc : p ^^^ target version = UInt32.ofNat (value 0 cs) := by
      rw [← h, ← UInt32.xor_assoc, UInt32.xor_self, UInt32.zero_xor]
    rw [hc, hnat, hsix]
  · intro h
    have hc : (p ^^^ target version).toNat < 2 ^ 30 := by
      rw [UInt32.toNat_xor]
      exact Nat.xor_lt_two_pow hlt (target_lt version)
    rw [h, value_sixSymbols hc, UInt32.ofNat_toNat, ← UInt32.xor_assoc, UInt32.xor_self,
      UInt32.zero_xor]

end BitcoinTx.Bech32
