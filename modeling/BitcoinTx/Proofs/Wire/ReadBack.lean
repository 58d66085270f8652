import BitcoinTx.Proofs.Wire.Layout
import Mathlib.Data.List.Basic

/-! Values that are read back in front of any rest. Written one after the other, without a count, they
can still be told apart. -/

namespace BitcoinTx

lemma append_eq_iff_of_left {α : Type} {a a' b b' : List α} (h : a.length = a'.length) :
    a ++ b = a' ++ b' ↔ a = a' ∧ b = b' :=
  ⟨fun heq => List.append_inj heq h, fun ⟨ha, hb⟩ => by rw [ha, hb]⟩

lemma append_eq_iff_of_right {α : Type} {a a' b b' : List α} (h : b.length = b'.length) :
    a ++ b = a' ++ b' ↔ a = a' ∧ b = b' :=
  ⟨fun heq => List.append_inj' heq h, fun ⟨ha, hb⟩ => by rw [ha, hb]⟩

section

variable {ε α : Type} {read : EStateM ε Bytes α} {write : α → Bytes} {a b : α} {l l' : List α}

def ReadsBack (read : EStateM ε Bytes α) (write : α → Bytes) (a : α) : Prop :=
  ∀ rest, read (write a ++ rest) = .ok a rest

lemma ReadsBack.append_inj {s t : Bytes} (ha : ReadsBack read write a) (hb : ReadsBack read write b)
    (h : write a ++ s = write b ++ t) : a = b ∧ s = t := by
  have hread := ha s
  rw [h, hb t] at hread
  obtain ⟨hab, hst⟩ := EStateM.Result.ok.inj hread
  exact ⟨hab.symm, hst.symm⟩

lemma ReadsBack.eq_iff (ha : ReadsBack read write a) (hb : ReadsBack read write b) :
    write a = write b ↔ a = b := by
  refine ⟨fun h => ?_, fun h => by rw [h]⟩
  have heq : write a ++ [] = write b ++ [] := by rw [h]
  exact (ha.append_inj hb heq).1

lemma ReadsBack.flatMap_inj (hne : ∀ a, write a ≠ []) (hl : ∀ a ∈ l, ReadsBack read write a)
    (hl' : ∀ a ∈ l', ReadsBack read write a) (h : l.flatMap write = l'.flatMap write) : l = l' := by
  induction l generalizing l' with
  | nil =>
    cases l' with
    | nil => rfl
    | cons b l' => exact absurd (List.append_eq_nil_iff.mp h.symm).1 (hne b)
  | cons a l ih =>
    cases l' with
    | nil => exact absurd (List.append_eq_nil_iff.mp h).1 (hne a)
    | cons b l' =>
      obtain ⟨ha, hrest⟩ := List.forall_mem_cons.mp hl
      obtain ⟨hb, hrest'⟩ := List.forall_mem_cons.mp hl'
      obtain ⟨hab, htail⟩ := ha.append_inj hb h
      rw [hab, ih hrest hrest' htail]

end

lemma readsBack_u32 (n : UInt32) : ReadsBack Reader.u32 (leBytes 4 ·.toNat) n := fun _ =>
  Reader.u32_ok.mpr rfl

lemma readsBack_u64 (n : UInt64) : ReadsBack Reader.u64 (leBytes 8 ·.toNat) n := fun _ =>
  Reader.u64_ok.mpr rfl

lemma leBytes_u32_eq_iff {m n : UInt32} : leBytes 4 m.toNat = leBytes 4 n.toNat ↔ m = n :=
  (readsBack_u32 m).eq_iff (readsBack_u32 n)

lemma leBytes_u64_eq_iff {m n : UInt64} : leBytes 8 m.toNat = leBytes 8 n.toNat ↔ m = n :=
  (readsBack_u64 m).eq_iff (readsBack_u64 n)

namespace CompactSize

lemma size_mono {m n : Nat} (h : m ≤ n) : size m ≤ size n := by
  rw [size, size]
  split_ifs <;> omega

end CompactSize

lemma varBytes_eq_iff {b c : Bytes} : varBytes b = varBytes c ↔ b = c := by
  refine ⟨fun h => ?_, fun h => by rw [h]⟩
  have hsize := congrArg List.length h
  rw [length_varBytes, length_varBytes, varBytesSize, varBytesSize] at hsize
  have hlength : b.length = c.length := by
    rcases Nat.le_total b.length c.length with hle | hle
    · have := CompactSize.size_mono hle
      omega
    · have := CompactSize.size_mono hle
      omega
  rw [varBytes, varBytes, hlength] at h
  exact List.append_cancel_left h

end BitcoinTx
