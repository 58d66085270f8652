import BitcoinTx.Proofs.Eval.Number
import BitcoinTx.Proofs.Eval.Steps
import BitcoinTx.Proofs.Script.Pushes

/-! Running programs that only push. -/

namespace BitcoinTx

namespace Opcode

variable {op : Opcode}

lemma small?_of_isPush (h : op.IsPush) (hd : ¬ op.IsDataPush) (h₁ : op ≠ minusOne) :
    ∃ n, op.small? = some n ∧ n ≤ 16 := by
  by_cases h₀ : op = zero
  · exact ⟨0, by simp [small?, h₀], by decide⟩
  have hs : one ≤ op ∧ op ≤ sixteen := by
    simp only [IsPush, IsDataPush, minusOne, zero, one, sixteen, reserved, pushData4] at *
    grind
  refine ⟨op.toNat - 0x50, by simp [small?, h₀, hs], ?_⟩
  have h := UInt8.le_iff_toNat_le.mp hs.2
  change op.toNat ≤ 0x60 at h
  omega

/-- A push of no data pushes a number of at most one byte: zero, minus one, or one of those up to sixteen. -/
lemma operation_of_isPush (h : op.IsPush) :
    op.operation = .push ∨ op.operand = .none ∧ ∃ v, op.operation = .pushNumber v ∧
      (ScriptNumber.encode v = [] ∨ ScriptNumber.encode v = [0x81] ∨
        ∃ n, 0 < n ∧ n ≤ 16 ∧ ScriptNumber.encode v = [UInt8.ofNat n]) := by
  rw [operation]
  by_cases hd : op.IsDataPush
  · exact .inl (if_pos hd)
  have hbare : op.operand = .none := by
    simp only [IsDataPush, pushData4] at hd
    rw [operand, data75, pushData1, pushData2, pushData4]
    grind
  refine .inr ⟨hbare, ?_⟩
  rw [if_neg hd]
  by_cases h₁ : op = minusOne
  · exact ⟨-1, if_pos h₁, .inr (.inl ScriptNumber.encode_neg_one)⟩
  obtain ⟨n, hn, hlt⟩ := small?_of_isPush h hd h₁
  rw [if_neg h₁, if_neg h.2, hn]
  refine ⟨n, rfl, ?_⟩
  obtain rfl | h₀ := Nat.eq_zero_or_pos n
  · exact .inl ScriptNumber.encode_zero
  · exact .inr (.inr ⟨n, h₀, hlt, ScriptNumber.encode_of_lt h₀ (by omega)⟩)

end Opcode

namespace Instruction

variable {i : Instruction}

def item (i : Instruction) : Bytes :=
  match i.opcode.operation with
  | .pushNumber v => ScriptNumber.encode v
  | _ => i.content

lemma length_item_le_iff {n : Nat} (hi : i.IsPush) (hw : i.WellFormed) (hn : 1 ≤ n) :
    i.item.length ≤ n ↔ i.content.length ≤ n := by
  rw [item]
  obtain ho | ⟨hb, v, ho, hv⟩ := Opcode.operation_of_isPush hi
  · rw [ho]
  · rw [WellFormed, hb] at hw
    have hlen : (ScriptNumber.encode v).length ≤ 1 := by
      obtain hv | hv | ⟨k, -, -, hv⟩ := hv <;> simp [hv]
    simp only [ho, content, hw, Option.getD_none, List.length_nil]
    omega

lemma isPush_pushing {data : Bytes} (h : data.length < 2 ^ 32) : (pushing data).IsPush := by
  by_cases h₀ : data = []
  · subst h₀
    decide
  · obtain ⟨op, hp, hd, -⟩ := pushing_spec h₀ h
    rw [hp]
    change op.IsPush
    simp only [Opcode.IsPush, Opcode.IsDataPush, Opcode.pushData4, Opcode.sixteen,
      Opcode.reserved] at *
    grind

lemma item_pushing {data : Bytes} (h : data.length < 2 ^ 32) :
    (pushing data).item = data := by
  by_cases h₀ : data = []
  · subst h₀
    exact ScriptNumber.encode_zero
  · obtain ⟨op, hp, hd, -⟩ := pushing_spec h₀ h
    have ho : op.operation = .push := if_pos hd
    simp [hp, item, ho, content]

lemma map_item_pushing {items : List Bytes} (h : ∀ x ∈ items, x.length < 2 ^ 32) :
    (items.map pushing).map item = items := by
  rw [List.map_map]
  exact (List.map_congr_left fun x hx => item_pushing (h x hx)).trans items.map_id

end Instruction

namespace Evaluator

variable [Crypto] {c : Evaluator} {i : Instruction} {l : List Instruction} {s : Stack} {n : Nat}
variable {b : EvalState}

lemma runs_push (hi : i.IsPush) : c.Runs [i] ⟨s, [], n⟩ b ↔
    i.content.length ≤ c.limits.maxElementSize ∧ s.length + 1 ≤ c.limits.maxStackSize ∧
      ⟨i.item :: s, [], n⟩ = b := by
  have hcost : i.cost = 0 := if_neg (UInt8.not_lt.mpr hi.1)
  have hperform (n : Nat) : c.Performs i ⟨s, [], n⟩ b ↔ ⟨i.item :: s, [], n⟩ = b := by
    rw [Instruction.item]
    obtain ho | ⟨-, v, ho, -⟩ := Opcode.operation_of_isPush hi
    · rw [performs_push ho, ho]
    · rw [performs_pushNumber ho, ho]
  rw [runs_unconditional, hperform, hcost]
  constructor
  · rintro ⟨-, he, rfl, hs⟩
    exact ⟨he, hs, rfl⟩
  · rintro ⟨he, hs, rfl⟩
    exact ⟨fun h => absurd hi.1 (UInt8.not_le.mpr h), he, rfl, hs⟩

lemma runs_pushes (hl : ∀ i ∈ l, i.IsPush) : c.Runs l ⟨s, [], n⟩ b ↔
    (∀ i ∈ l, i.content.length ≤ c.limits.maxElementSize) ∧
      (l ≠ [] → s.length + l.length ≤ c.limits.maxStackSize) ∧
      ⟨(l.map Instruction.item).reverse ++ s, [], n⟩ = b := by
  induction l generalizing s with
  | nil => simp [runs_nil]
  | cons i l ih =>
    obtain ⟨hi, hl⟩ := List.forall_mem_cons.mp hl
    rw [runs_cons]
    simp only [runs_push hi]
    constructor
    · rintro ⟨_, ⟨he, hs, rfl⟩, h⟩
      obtain ⟨hes, hss, rfl⟩ := (ih hl).mp h
      refine ⟨List.forall_mem_cons.mpr ⟨he, hes⟩, fun _ => ?_, by simp⟩
      by_cases hne : l = []
      · subst hne
        exact hs
      · have hss := hss hne
        simp only [List.length_cons] at hss ⊢
        omega
    · rintro ⟨he, hs, rfl⟩
      obtain ⟨he, hes⟩ := List.forall_mem_cons.mp he
      have hs := hs (List.cons_ne_nil i l)
      rw [List.length_cons] at hs
      refine ⟨_, ⟨he, by omega, rfl⟩, (ih hl).mpr ⟨hes, fun _ => ?_, by simp⟩⟩
      rw [List.length_cons]
      omega

lemma completes_pushes {t : Stack} (hl : ∀ i ∈ l, i.IsPush) : c.Completes l s t ↔
    (∀ i ∈ l, i.content.length ≤ c.limits.maxElementSize) ∧
      (l ≠ [] → s.length + l.length ≤ c.limits.maxStackSize) ∧
      (l.map Instruction.item).reverse ++ s = t := by
  rw [completes_iff]
  simp only [runs_pushes hl, EvalState.mk.injEq, true_and]
  constructor
  · rintro ⟨_, he, hs, ht, -⟩
    exact ⟨he, hs, ht⟩
  · rintro ⟨he, hs, ht⟩
    exact ⟨0, he, hs, ht, rfl⟩

lemma not_takes_minusOne {t : Stack} : ¬ c.Takes ⟨[0x81]⟩ s t := by
  rintro ⟨l, hl, hrun⟩
  have hop : Script.instructions ⟨[0x81]⟩ = .ok [.op 0x81] := by with_unfolding_all rfl
  obtain rfl := Except.ok.inj (hop.symm.trans hl)
  obtain ⟨n, hrun⟩ := completes_iff.mp hrun
  obtain ⟨-, d, ⟨m, hm, -⟩, -⟩ := (runs_command (by decide)).mp hrun
  cases hm

lemma not_takes_small {t : Stack} (h₀ : 0 < n) (h : n ≤ 16) : ¬ c.Takes ⟨[UInt8.ofNat n]⟩ s t := by
  have hoperand : ∀ k ≤ 16, 0 < k → Opcode.operand (UInt8.ofNat k) = .fixed k := by decide
  have hsplit : Instruction.splitOperand (UInt8.ofNat n) [] = .error (n, 0) := by
    rw [Instruction.splitOperand, hoperand n h h₀]
    simp [Instruction.splitData, h₀]
  rintro ⟨l, hl, -⟩
  rw [Script.instructions, Instruction.decode, Instruction.decodeFrom_cons_error hsplit] at hl
  cases hl

lemma content_eq_of_takes_item {t : Stack} (hi : i.IsPush) (hw : i.WellFormed)
    (h : c.Takes ⟨i.item⟩ s t) : i.content = i.item := by
  obtain ho | ⟨hb, v, ho, hv⟩ := Opcode.operation_of_isPush hi
  · rw [Instruction.item, ho]
  · have hitem : i.item = ScriptNumber.encode v := by rw [Instruction.item, ho]
    rw [Instruction.WellFormed, hb] at hw
    rw [hitem] at h ⊢
    obtain hv | hv | ⟨n, h₀, hn, hv⟩ := hv <;> rw [hv] at h ⊢
    · rw [Instruction.content, hw, Option.getD_none]
    · exact absurd h not_takes_minusOne
    · exact absurd h (not_takes_small h₀ hn)

end Evaluator

end BitcoinTx
