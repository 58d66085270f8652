import BitcoinTx.Proofs.Script.Pushes

/-! The forms of a push of data, and that the one that is chosen is the shortest. -/

namespace BitcoinTx

open Instruction

namespace Opcode

variable {op op' : Opcode} {n : Nat}

/-- A push of `n` bytes behind this opcode can be read. -/
def Carries (op : Opcode) (n : Nat) : Prop :=
  match op.operand with
  | .none => False
  | .fixed k => n = k
  | .sized w => n < 256 ^ w

def prefixSize (op : Opcode) : Nat :=
  match op.operand with
  | .sized w => w + 1
  | _ => 1

lemma operand_of_le (h : n ≤ 75) (h₀ : 0 < n) : operand (UInt8.ofNat n) = .fixed n := by
  have hall : ∀ k < 76, 0 < k → operand (UInt8.ofNat k) = .fixed k := by decide
  exact hall n (by omega) h₀

lemma dataPush_cases (hd : op.IsDataPush) : op.operand = .fixed op.toNat ∧ op.toNat ≤ 75 ∨
    op = pushData1 ∨ op = pushData2 ∨ op = pushData4 := by
  refine or_iff_not_imp_right.mpr fun h => ?_
  have hle : 0x01 ≤ op ∧ op ≤ data75 := by
    simp only [IsDataPush, pushData1, pushData2, pushData4, data75] at *
    grind
  exact ⟨if_pos hle, UInt8.le_iff_toNat_le.mp hle.2⟩

lemma carries_cases (hd : op.IsDataPush) (hc : op.Carries n) :
    n ≤ 75 ∧ op = UInt8.ofNat n ∧ op.prefixSize = 1 ∨
      n < 0x100 ∧ op = pushData1 ∧ op.prefixSize = 2 ∨
      n < 0x10000 ∧ op = pushData2 ∧ op.prefixSize = 3 ∨ op = pushData4 ∧ op.prefixSize = 5 := by
  obtain ⟨ho, hle⟩ | rfl | rfl | rfl := dataPush_cases hd
  · rw [Carries, ho] at hc
    subst hc
    refine .inl ⟨hle, UInt8.ofNat_toNat.symm, ?_⟩
    rw [prefixSize, ho]
  · exact .inr (.inl ⟨hc, rfl, rfl⟩)
  · exact .inr (.inr (.inl ⟨hc, rfl, rfl⟩))
  · exact .inr (.inr (.inr ⟨rfl, rfl⟩))

lemma forPush?_cases (h₀ : 0 < n) (h : forPush? n = some op) :
    n ≤ 75 ∧ op = UInt8.ofNat n ∧ op.prefixSize = 1 ∨
      75 < n ∧ op = pushData1 ∧ op.prefixSize = 2 ∨
      0x100 ≤ n ∧ op = pushData2 ∧ op.prefixSize = 3 ∨
      0x10000 ≤ n ∧ op = pushData4 ∧ op.prefixSize = 5 := by
  rw [forPush?] at h
  split at h
  · next hn =>
    cases h
    refine .inl ⟨hn, rfl, ?_⟩
    rw [prefixSize, operand_of_le hn h₀]
  split at h
  · cases h
    exact .inr (.inl ⟨by omega, rfl, rfl⟩)
  split at h
  · cases h
    exact .inr (.inr (.inl ⟨by omega, rfl, rfl⟩))
  split at h
  · cases h
    exact .inr (.inr (.inr ⟨by omega, rfl, rfl⟩))
  · cases h

lemma prefixSize_lt_of_forPush? (h₀ : 0 < n) (h : forPush? n = some op) (hd : op'.IsDataPush)
    (hc : op'.Carries n) (hne : op' ≠ op) : op.prefixSize < op'.prefixSize := by
  have hop := forPush?_cases h₀ h
  have hop' := carries_cases hd hc
  grind

end Opcode

namespace Instruction

variable {i : Instruction} {data : Bytes}

/-- The instruction pushes the data behind one of the opcodes that tell its size, and is shorter than every
other one that does. -/
structure Shortest (i : Instruction) (data : Bytes) : Prop where
  isDataPush : i.opcode.IsDataPush
  wellFormed : i.WellFormed
  content_eq : i.content = data
  size_lt : ∀ j : Instruction, j.opcode.IsDataPush → j.WellFormed → j.content = data → j ≠ i →
    i.size < j.size

lemma size_of_data (op : Opcode) (data : Bytes) :
    size ⟨op, some data⟩ = op.prefixSize + data.length := by
  have hprefix : (op.lengthBytes data.length).length + 1 = op.prefixSize := by
    rw [Opcode.lengthBytes, Opcode.prefixSize]
    cases op.operand <;> simp
  rw [size, encode, content, Option.getD_some, List.length_append, List.length_cons, hprefix]

lemma WellFormed.carries (hi : i.WellFormed) (hd : i.opcode.IsDataPush) :
    i = ⟨i.opcode, some i.content⟩ ∧ i.opcode.Carries i.content.length := by
  obtain ⟨op, data⟩ := i
  rw [WellFormed] at hi
  rw [Opcode.Carries]
  obtain ⟨ho, -⟩ | rfl | rfl | rfl := Opcode.dataPush_cases hd
  · simp only [ho] at hi ⊢
    obtain ⟨d, rfl, hlen⟩ := hi
    exact ⟨rfl, hlen⟩
  all_goals
    obtain ⟨d, rfl, hlen⟩ := hi
    exact ⟨rfl, hlen⟩

lemma shortest_pushing (h₀ : data ≠ []) (h : data.length < 2 ^ 32) : (pushing data).Shortest data := by
  have hpos := List.length_pos_iff.mpr h₀
  obtain ⟨op, hop, hd, -⟩ := Opcode.forPush?_spec hpos h
  have hp : pushing data = ⟨op, some data⟩ := by simp [pushing, h₀, hop]
  refine ⟨by rwa [hp], pushing_wellFormed h, content_pushing data, fun j hj hw hc hne => ?_⟩
  obtain ⟨hj', hcarries⟩ := hw.carries hj
  rw [hc] at hj' hcarries
  rw [hp, hj'] at hne
  rw [hp, hj', size_of_data, size_of_data, Nat.add_lt_add_iff_right]
  refine Opcode.prefixSize_lt_of_forPush? hpos hop hj hcarries fun ho => hne ?_
  rw [ho]

lemma size_pushing_of_le (h : data.length ≤ 75) : (pushing data).size = data.length + 1 := by
  by_cases h₀ : data = []
  · subst h₀
    rfl
  · have hp : pushing data = ⟨UInt8.ofNat data.length, some data⟩ := by
      simp [pushing, h₀, Opcode.forPush?, h]
    rw [hp, size_of_data, Opcode.prefixSize, Opcode.operand_of_le h (List.length_pos_iff.mpr h₀),
      Nat.add_comm]

end Instruction

end BitcoinTx
