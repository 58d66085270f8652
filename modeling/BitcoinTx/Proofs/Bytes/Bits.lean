import BitcoinTx.Bytes.Bits
import Mathlib.Algebra.Group.Nat.Defs
import Mathlib.Data.List.Basic
import Mathlib.Data.List.Induction
import Mathlib.Tactic.Lemma

/-! Bytes and groups of five bits are the same bits, but for at most four zero bits behind them. -/

namespace BitcoinTx.Bits

variable {w n : Nat} {l r : List Bool} {ls : List (List Bool)}

@[simp] lemma length_ofNat (w n : Nat) : (ofNat w n).length = w := by
  simp [ofNat]

lemma ofNat_succ (w n : Nat) : ofNat (w + 1) n = ofNat w (n / 2) ++ [n.testBit 0] := by
  rw [ofNat, List.range_succ_eq_map, List.reverse_cons, List.map_append, ← List.map_reverse,
    List.map_map]
  refine congrArg (· ++ [n.testBit 0]) (List.map_congr_left fun i _ => ?_)
  exact Nat.testBit_succ n i

lemma toNat_concat (l : List Bool) (b : Bool) : toNat (l ++ [b]) = 2 * toNat l + b.toNat := by
  rw [toNat, List.foldl_append]
  rfl

lemma toNat_ofNat (w n : Nat) : toNat (ofNat w n) = n % 2 ^ w := by
  induction w generalizing n with
  | zero => rw [Nat.pow_zero, Nat.mod_one]; rfl
  | succ w ih =>
    have hbit : (n.testBit 0).toNat = n % 2 := Nat.toNat_testBit n 0 ▸ by simp
    rw [ofNat_succ, toNat_concat, ih, hbit, Nat.pow_succ', Nat.mod_mul, Nat.add_comm]

lemma ofNat_toNat (l : List Bool) : ofNat l.length (toNat l) = l := by
  induction l using List.reverseRecOn with
  | nil => rfl
  | append_singleton l b ih =>
    have hdiv : toNat (l ++ [b]) / 2 = toNat l := by
      have hb := b.toNat_lt
      rw [toNat_concat]
      omega
    have hbit : (toNat (l ++ [b])).testBit 0 = b := by
      rw [toNat_concat, Nat.testBit_zero]
      cases b <;> simp
    rw [List.length_append, List.length_singleton, ofNat_succ, hdiv, hbit, ih]

lemma toNat_lt (l : List Bool) : toNat l < 2 ^ l.length := by
  rw [← ofNat_toNat l, toNat_ofNat, length_ofNat]
  exact Nat.mod_lt _ (Nat.two_pow_pos _)

lemma groups_flatten_append (hls : ∀ g ∈ ls, g.length = w) (hr : r.length < w) :
    groups w (ls.flatten ++ r) = ls := by
  induction ls with
  | nil => rw [List.flatten_nil, List.nil_append, groups, dif_neg (by omega)]
  | cons g ls ih =>
    obtain ⟨hg, hls⟩ := List.forall_mem_cons.mp hls
    have hlen : 0 < w ∧ w ≤ (g ++ (ls.flatten ++ r)).length := by
      rw [List.length_append]
      omega
    rw [List.flatten_cons, List.append_assoc, groups, dif_pos hlen]
    simp only [List.take_left' hg, List.drop_left' hg, ih hls]

lemma groups_spec (hw : 0 < w) (l : List Bool) :
    (∀ g ∈ groups w l, g.length = w) ∧ ∃ r, r.length < w ∧ l = (groups w l).flatten ++ r := by
  fun_induction groups w l with
  | case1 l h hdrop ih =>
    obtain ⟨hgroups, r, hr, hrest⟩ := ih
    refine ⟨List.forall_mem_cons.mpr ⟨List.length_take_of_le h.2, hgroups⟩, r, hr, ?_⟩
    rw [List.flatten_cons, List.append_assoc, ← hrest, List.take_append_drop]
  | case2 l h =>
    exact ⟨by simp, l, Nat.lt_of_not_le fun hle => h ⟨hw, hle⟩, rfl⟩

lemma length_flatten_of (h : ∀ g ∈ ls, g.length = w) : ls.flatten.length = w * ls.length := by
  rw [List.length_flatten, List.map_congr_left h, List.map_const', List.sum_replicate_nat,
    Nat.mul_comm]

lemma flatMap_ofNat_map_toNat (h : ∀ g ∈ ls, g.length = w) :
    (ls.map toNat).flatMap (ofNat w) = ls.flatten := by
  rw [List.flatMap_def, List.map_map]
  refine congrArg List.flatten ((List.map_congr_left fun g hg => ?_).trans (List.map_id ls))
  exact h g hg ▸ ofNat_toNat g

def fiveBits (l : List Nat) : List Bool := l.flatMap (ofNat 5)

def byteBits (b : Bytes) : List Bool := b.flatMap (ofNat 8 ·.toNat)

lemma length_fiveBits (l : List Nat) : (fiveBits l).length = 5 * l.length := by
  simp [fiveBits, List.length_flatMap, Nat.mul_comm]

lemma length_byteBits (b : Bytes) : (byteBits b).length = 8 * b.length := by
  simp [byteBits, List.length_flatMap, Nat.mul_comm]

lemma byteBits_map_toNat (h : ∀ g ∈ ls, g.length = 8) :
    byteBits (ls.map (UInt8.ofNat <| toNat ·)) = ls.flatten := by
  rw [← flatMap_ofNat_map_toNat h, byteBits, List.flatMap_map, List.flatMap_map]
  refine List.flatMap_congr fun g hg => ?_
  have hlt := toNat_lt g
  rw [h g hg] at hlt
  exact congrArg (ofNat 8) (UInt8.toNat_ofNat_of_lt hlt)

variable {l : List Nat} {b : Bytes}

/-- The groups of five bits `l` are `b`, filled up with less than a group of zero bits. -/
def SameBits (l : List Nat) (b : Bytes) : Prop :=
  ∃ pad < 5, fiveBits l = byteBits b ++ List.replicate pad false

def missing (b : Bytes) : Nat := (5 - (byteBits b).length % 5) % 5

lemma fives_eq (b : Bytes) :
    fives b = (groups 5 (byteBits b ++ List.replicate (missing b) false)).map toNat := rfl

lemma sameBits_fives (b : Bytes) : SameBits (fives b) b := by
  refine ⟨missing b, Nat.mod_lt _ (by decide), ?_⟩
  obtain ⟨hgroups, r, hr, hflat⟩ :=
    groups_spec (w := 5) (by decide) (byteBits b ++ List.replicate (missing b) false)
  rw [fiveBits, fives_eq, flatMap_ofNat_map_toNat hgroups]
  have hlen := congrArg List.length hflat
  rw [List.length_append, List.length_append, length_flatten_of hgroups, List.length_replicate,
    missing] at hlen
  have hrest : r = [] := List.eq_nil_of_length_eq_zero (by omega)
  rw [hrest, List.append_nil] at hflat
  exact hflat.symm

lemma SameBits.fives_eq (hl : ∀ n ∈ l, n < 32) (h : SameBits l b) : fives b = l := by
  obtain ⟨pad, hpad, hbits⟩ := h
  have hmissing : missing b = pad := by
    have hlen := congrArg List.length hbits
    rw [List.length_append, List.length_replicate, length_fiveBits] at hlen
    rw [missing]
    omega
  have hgroups : groups 5 (fiveBits l) = l.map (ofNat 5) := by
    have hflat : fiveBits l = (l.map (ofNat 5)).flatten ++ [] := by
      rw [fiveBits, List.flatMap_def, List.append_nil]
    rw [hflat]
    exact groups_flatten_append (by simp) (by simp)
  rw [Bits.fives_eq, hmissing, ← hbits, hgroups, List.map_map]
  refine (List.map_congr_left fun n hn => ?_).trans (List.map_id l)
  exact (toNat_ofNat 5 n).trans (Nat.mod_eq_of_lt (hl n hn))

lemma ofFives?_eq (l : List Nat) :
    ofFives? l =
      let rest := (fiveBits l).drop ((fiveBits l).length / 8 * 8)
      if rest.length ≤ 4 ∧ true ∉ rest then
        some ((groups 8 (fiveBits l)).map (UInt8.ofNat <| toNat ·))
      else none := rfl

lemma SameBits.ofFives?_eq (h : SameBits l b) : ofFives? l = some b := by
  obtain ⟨pad, hpad, hbits⟩ := h
  have hdrop : (fiveBits l).drop ((fiveBits l).length / 8 * 8) = List.replicate pad false := by
    have hlen : (fiveBits l).length / 8 * 8 = (byteBits b).length := by
      rw [hbits, List.length_append, List.length_replicate, length_byteBits]
      omega
    rw [hlen, hbits, List.drop_left]
  have hgroups : groups 8 (fiveBits l) = b.map (ofNat 8 ·.toNat) := by
    rw [hbits, byteBits, List.flatMap_def]
    exact groups_flatten_append (by simp) (by simp; omega)
  have hok : pad ≤ 4 ∧ true ∉ List.replicate pad false := ⟨by omega, by simp⟩
  simp only [Bits.ofFives?_eq, hdrop, hgroups, List.length_replicate, if_pos hok, List.map_map]
  refine congrArg some ((List.map_congr_left fun x _ => ?_).trans (List.map_id b))
  refine UInt8.toNat_inj.mp ?_
  simp [toNat_ofNat]

lemma sameBits_of_ofFives? (h : ofFives? l = some b) : SameBits l b := by
  simp only [ofFives?_eq] at h
  obtain ⟨hgroups, r, hr, hflat⟩ := groups_spec (w := 8) (by decide) (fiveBits l)
  generalize groups 8 (fiveBits l) = gs at h hgroups hflat
  have hlen : (fiveBits l).length / 8 * 8 = gs.flatten.length := by
    rw [hflat, List.length_append, length_flatten_of hgroups]
    omega
  rw [hlen, hflat, List.drop_left] at h
  split at h
  next hrest =>
    cases h
    have hzero : r = List.replicate r.length false :=
      List.eq_replicate_of_mem fun x hx => Bool.eq_false_iff.mpr fun hx' => hrest.2 (hx' ▸ hx)
    refine ⟨r.length, by omega, ?_⟩
    rw [byteBits_map_toNat hgroups, ← hzero, hflat]
  · contradiction

theorem ofFives?_fives (b : Bytes) : ofFives? (fives b) = some b :=
  (sameBits_fives b).ofFives?_eq

theorem fives_of_ofFives? (hl : ∀ n ∈ l, n < 32) (h : ofFives? l = some b) : fives b = l :=
  (sameBits_of_ofFives? h).fives_eq hl

lemma lt_of_mem_fives {n : Nat} (h : n ∈ fives b) : n < 32 := by
  rw [fives_eq] at h
  obtain ⟨g, hg, rfl⟩ := List.mem_map.mp h
  have hlt := toNat_lt g
  rwa [(groups_spec (by decide) _).1 g hg] at hlt

lemma length_fives (b : Bytes) : (fives b).length = (8 * b.length + 4) / 5 := by
  obtain ⟨pad, hpad, hbits⟩ := sameBits_fives b
  have hlen := congrArg List.length hbits
  rw [List.length_append, List.length_replicate, length_fiveBits, length_byteBits] at hlen
  omega

end BitcoinTx.Bits
