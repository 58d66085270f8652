import BitcoinTx.Proofs.Script.Codec

/-! Scripts that push given items: one instruction for each item, which parses back. -/

namespace BitcoinTx

open Outcome

lemma Opcode.forPush?_spec {n : Nat} (h₀ : 0 < n) (h : n < 2 ^ 32) :
    ∃ op, forPush? n = some op ∧ op.IsDataPush ∧
      (op.operand = .fixed n ∨ ∃ w, op.operand = .sized w ∧ w ≤ 4 ∧ n < 256 ^ w) := by
  have hdirect : ∀ n < 76, 0 < n →
      IsDataPush (UInt8.ofNat n) ∧ operand (UInt8.ofNat n) = .fixed n := by decide
  rw [forPush?]
  by_cases h₁ : n ≤ 75
  · obtain ⟨hp, ho⟩ := hdirect n (by omega) h₀
    exact ⟨_, if_pos h₁, hp, .inl ho⟩
  by_cases h₂ : n < 0x100
  · exact ⟨pushData1, by rw [if_neg h₁, if_pos h₂], by decide, .inr ⟨1, by decide, by decide, by omega⟩⟩
  by_cases h₃ : n < 0x10000
  · refine ⟨pushData2, ?_, by decide, .inr ⟨2, by decide, by decide, by omega⟩⟩
    rw [if_neg h₁, if_neg h₂, if_pos h₃]
  · have h₄ : n < 0x100000000 := by omega
    refine ⟨pushData4, ?_, by decide, .inr ⟨4, by decide, by decide, by omega⟩⟩
    rw [if_neg h₁, if_neg h₂, if_neg h₃, if_pos h₄]

lemma Opcode.forPush?_eq_none {n : Nat} (h : 2 ^ 32 ≤ n) : forPush? n = none := by
  rw [forPush?]
  repeat rw [if_neg (by omega)]

namespace Instruction

def pushing (data : Bytes) : Instruction :=
  if data.isEmpty then op .zero else ⟨(Opcode.forPush? data.length).getD .zero, some data⟩

variable {data : Bytes} {i : Instruction}

@[simp] lemma content_pushing (data : Bytes) : (pushing data).content = data := by
  cases data <;> rfl

lemma pushing_spec (h₀ : data ≠ []) (h : data.length < 2 ^ 32) :
    ∃ op, pushing data = ⟨op, some data⟩ ∧ op.IsDataPush ∧
      (op.operand = .fixed data.length ∨
        ∃ w, op.operand = .sized w ∧ w ≤ 4 ∧ data.length < 256 ^ w) := by
  obtain ⟨op, ho, hp, hs⟩ := Opcode.forPush?_spec (List.length_pos_iff.mpr h₀) h
  exact ⟨op, by simp [pushing, h₀, ho], hp, hs⟩

lemma push_ok_iff : push data = .ok i ↔ data.length < 2 ^ 32 ∧ pushing data = i := by
  by_cases h₀ : data = []
  · subst h₀
    simp [push, pushing]
  have hempty : data.isEmpty = false := by simpa using h₀
  by_cases h : data.length < 2 ^ 32
  · obtain ⟨op, ho, -, -⟩ := Opcode.forPush?_spec (List.length_pos_iff.mpr h₀) h
    simp only [push, pushing, hempty, ho, h, Bool.false_eq_true, if_false, Option.getD_some,
      Except.ok.injEq, true_and]
  · have ho := Opcode.forPush?_eq_none (Nat.not_lt.mp h)
    simp only [push, hempty, ho, h, Bool.false_eq_true, if_false, reduceCtorEq, false_and]

lemma pushing_wellFormed (h : data.length < 2 ^ 32) : (pushing data).WellFormed := by
  by_cases h₀ : data = []
  · subst h₀
    rfl
  · obtain ⟨op, hp, -, ho | ⟨w, ho, -, hw⟩⟩ := pushing_spec h₀ h
    · rw [hp, WellFormed, ho]
      exact ⟨data, rfl, rfl⟩
    · rw [hp, WellFormed, ho]
      exact ⟨data, rfl, hw⟩

lemma length_encode_pushing (h : data.length < 2 ^ 32) :
    (pushing data).encode.length ≤ data.length + 5 := by
  by_cases h₀ : data = []
  · subst h₀
    decide
  · obtain ⟨op, hp, -, ho | ⟨w, ho, hw, -⟩⟩ := pushing_spec h₀ h
    · simp [hp, encode, content, Opcode.lengthBytes, ho]
    · simp only [hp, encode, content, Opcode.lengthBytes, ho, Option.getD_some, List.length_append,
        List.length_cons, length_leBytes]
      omega

lemma length_encodeAll_pushing {items : List Bytes} {n : Nat} (h : ∀ x ∈ items, x.length ≤ n)
    (hn : n < 2 ^ 32) : (encodeAll (items.map pushing)).length ≤ items.length * (n + 5) := by
  induction items with
  | nil => simp [encodeAll]
  | cons x items ih =>
    obtain ⟨hx, hs⟩ := List.forall_mem_cons.mp h
    have hp := length_encode_pushing (by omega : x.length < 2 ^ 32)
    have ih := ih hs
    rw [List.map_cons, encodeAll_cons, List.length_append, List.length_cons, Nat.add_mul]
    omega

end Instruction

namespace Script

open Instruction

variable {s t : Script} {items : List Bytes}

lemma pushData_ok_iff {data : Bytes} :
    s.pushData data = .ok t ↔ data.length < 2 ^ 32 ∧ ⟨s.bytes ++ (pushing data).encode⟩ = t := by
  rw [pushData, except_map_ok]
  simp [push_ok_iff, and_assoc]

lemma pushData_error {data : Bytes} (h : 2 ^ 32 ≤ data.length) :
    s.pushData data = .error (.dataTooBig data.length) := by
  have hempty : ¬ data.isEmpty := by
    rw [List.isEmpty_iff_length_eq_zero]
    omega
  rw [pushData, Instruction.push, if_neg hempty, Opcode.forPush?_eq_none h]
  rfl

lemma pushAll_ok_iff : s.pushAll items = .ok t ↔
    (∀ x ∈ items, x.length < 2 ^ 32) ∧ ⟨s.bytes ++ encodeAll (items.map pushing)⟩ = t := by
  induction items generalizing s with
  | nil =>
    change Except.ok s = .ok t ↔ _
    simp [encodeAll]
  | cons x items ih =>
    change s.pushData x >>= (pushAll · items) = .ok t ↔ _
    rw [except_bind_ok]
    simp only [pushData_ok_iff, ih]
    constructor
    · rintro ⟨_, ⟨hx, rfl⟩, hs, rfl⟩
      exact ⟨List.forall_mem_cons.mpr ⟨hx, hs⟩, by simp⟩
    · rintro ⟨h, rfl⟩
      obtain ⟨hx, hs⟩ := List.forall_mem_cons.mp h
      exact ⟨_, ⟨hx, rfl⟩, hs, by simp⟩

lemma instructions_pushing (h : ∀ x ∈ items, x.length < 2 ^ 32) :
    instructions ⟨encodeAll (items.map pushing)⟩ = .ok (items.map pushing) := by
  refine instructions_ok_iff.mpr ⟨?_, rfl⟩
  intro i hi
  obtain ⟨x, hx, rfl⟩ := List.mem_map.mp hi
  exact pushing_wellFormed (h x hx)

end Script

end BitcoinTx
