import BitcoinTx.Proofs.Eval.Advance
import BitcoinTx.Proofs.Eval.Conditional
import Mathlib.Data.List.Chain

/-! The conditionals that a run has open: what stands inside a branch that does not run is skipped, so that
the innermost conditional alone tells whether an instruction runs. -/

namespace BitcoinTx

open Outcome

def Instruction.opens (i : Instruction) : Bool := i.opcode = 0x63 ∨ i.opcode = 0x64

def Instruction.closes (i : Instruction) : Bool := i.opcode = 0x68

lemma Instruction.opens_iff {i : Instruction} :
    i.opens = true ↔ ∃ negate, i.opcode.operation = .branch negate := by
  have h : ∀ n < 256, (UInt8.ofNat n = 0x63 ∨ UInt8.ofNat n = 0x64 ↔
      Opcode.operation (.ofNat n) = .branch false ∨ Opcode.operation (.ofNat n) = .branch true) := by
    decide +kernel
  simpa [opens, or_comm] using h i.opcode.toNat i.opcode.toNat_lt

lemma Instruction.closes_iff {i : Instruction} :
    i.closes = true ↔ i.opcode.operation = .endBranch := by
  have h : ∀ n < 256, (UInt8.ofNat n = 0x68 ↔ Opcode.operation (.ofNat n) = .endBranch) := by
    decide +kernel
  simpa [closes] using h i.opcode.toNat i.opcode.toNat_lt

/-- The conditionals `u`, innermost first, are such that one is skipped when the one around it does not
run, and not otherwise. -/
structure Nested (u : List Condition) : Prop where
  outermost : u.getLast? ≠ some .skipped
  inner : u.IsChain fun x y => x = .skipped ↔ y ≠ .active

section

variable {x : Condition} {u v : List Condition}

lemma Nested.nil : Nested [] := ⟨nofun, .nil⟩

lemma nested_cons :
    Nested (x :: u) ↔ (x = .skipped ↔ Machine.executing { conditions := u } = false) ∧ Nested u := by
  cases u with
  | nil =>
    have hx : Nested [x] ↔ x ≠ .skipped :=
      ⟨fun h hs => h.outermost (congrArg some hs), fun h => ⟨fun hs => h (Option.some.inj hs), .singleton x⟩⟩
    rw [hx]
    simp [Machine.executing, Nested.nil]
  | cons y u =>
    have hy : Machine.executing { conditions := y :: u } = false ↔ y ≠ .active := by
      cases y <;> simp [Machine.executing]
    rw [hy]
    constructor
    · intro h
      obtain ⟨hx, hu⟩ := List.isChain_cons_cons.mp h.inner
      exact ⟨hx, ⟨List.getLast?_cons_cons ▸ h.outermost, hu⟩⟩
    · rintro ⟨hx, h⟩
      refine ⟨?_, List.isChain_cons_cons.mpr ⟨hx, h.inner⟩⟩
      rw [List.getLast?_cons_cons]
      exact h.outermost

lemma Nested.executing_iff (h : Nested u) :
    Machine.executing { conditions := u } = true ↔ ∀ x ∈ u, x = .active := by
  induction u with
  | nil => simp [Machine.executing]
  | cons x u ih =>
    obtain ⟨hx, hu⟩ := nested_cons.mp h
    rw [List.forall_mem_cons, ← ih hu]
    cases x with
    | active => simpa [Machine.executing] using hx
    | inactive | skipped => simp [Machine.executing]

end

/-- What the instruction makes of the open conditionals when it succeeds. -/
inductive Turns (i : Instruction) : List Condition → List Condition → Prop
  | plain {u : List Condition} (ho : i.opcode.operation.isBranching = false) : Turns i u u
  | branch {negate : Bool} {x : Condition} {u : List Condition}
      (ho : i.opcode.operation = .branch negate)
      (hx : x = .skipped ↔ Machine.executing { conditions := u } = false) : Turns i u (x :: u)
  | otherwise {x : Condition} {u : List Condition} (ho : i.opcode.operation = .otherwise) :
      Turns i (x :: u) (x.flip :: u)
  | endBranch {x : Condition} {u : List Condition} (ho : i.opcode.operation = .endBranch) :
      Turns i (x :: u) u

namespace Turns

variable {i : Instruction} {u v : List Condition} {l : List Instruction}

lemma nested (h : Turns i u v) (hu : Nested u) : Nested v := by
  cases h with
  | plain ho => exact hu
  | branch ho hx => exact nested_cons.mpr ⟨hx, hu⟩
  | @otherwise x u ho =>
    have hflip : x.flip = .skipped ↔ x = .skipped := by cases x <;> decide
    rw [nested_cons, hflip]
    exact nested_cons.mp hu
  | endBranch ho => exact (nested_cons.mp hu).2

lemma length (h : Turns i u v) :
    v.length + (if i.closes then 1 else 0) = u.length + if i.opens then 1 else 0 := by
  cases h with
  | plain ho =>
    have hopens : ¬ i.opens = true := by
      rintro hi
      obtain ⟨negate, hi⟩ := Instruction.opens_iff.mp hi
      simp [hi, Operation.isBranching] at ho
    have hcloses : ¬ i.closes = true := by
      rw [Instruction.closes_iff]
      intro hi
      simp [hi, Operation.isBranching] at ho
    simp [hopens, hcloses]
  | @branch negate x u ho hx =>
    have hcloses : ¬ i.closes = true := by simp [Instruction.closes_iff, ho]
    simp [Instruction.opens_iff.mpr ⟨negate, ho⟩, hcloses]
  | otherwise ho =>
    have hopens : ¬ i.opens = true := by simp [Instruction.opens_iff, ho]
    have hcloses : ¬ i.closes = true := by simp [Instruction.closes_iff, ho]
    simp [hopens, hcloses]
  | endBranch ho =>
    have hopens : ¬ i.opens = true := by simp [Instruction.opens_iff, ho]
    simp [hopens, Instruction.closes_iff.mpr ho]

lemma closes (h : Turns i u v) (hl : Closes v.length l) : Closes u.length (i :: l) := by
  cases h with
  | plain ho => exact .plain ho hl
  | branch ho hx => exact .branch ho hl
  | otherwise ho => exact .otherwise ho hl
  | endBranch ho => exact .endBranch ho hl

end Turns

namespace Evaluator

variable {c : Evaluator} {i : Instruction} {rest l p : List Instruction} {m n : Machine} {y : Unit}

lemma conditions_of_simulates {α : Type} {x : EvalM α} {a : α}
    (h : ∀ ρ, Simulates (Ahead 0 ρ) (Ahead 0 ρ) x x) (hx : x m = .ok a n) :
    n.conditions = m.conditions := by
  have hm : Ahead 0 (fun _ v => v = m.conditions) m m := ⟨rfl, rfl, rfl⟩
  obtain ⟨_, _, hn⟩ := (h _).ok hm hx
  exact hn.conditions

lemma openBranch_conditions {negate : Bool} (h : openBranch negate m = .ok y n) :
    ∃ x, (x = .skipped ↔ m.executing = false) ∧ n.conditions = x :: m.conditions := by
  rw [openBranch, get_bind_ok] at h
  cases hm : m.executing with
  | false =>
    rw [hm] at h
    obtain rfl := modify_ok.mp h
    exact ⟨.skipped, by simp, rfl⟩
  | true =>
    rw [hm] at h
    obtain ⟨b, k, hb, hk⟩ := bind_ok.mp h
    obtain rfl := modify_ok.mp hk
    have hc : k.conditions = m.conditions := conditions_of_simulates (fun _ => popCondition_simulates) hb
    refine ⟨if b = negate then .inactive else .active, ?_, congrArg _ hc⟩
    split <;> simp

lemma changeBranch_conditions {o : Opcode} {f : Condition → List Condition}
    (h : changeBranch o f m = .ok y n) :
    ∃ x u, m.conditions = x :: u ∧ n.conditions = f x ++ u := by
  rw [changeBranch, get_bind_ok] at h
  cases hm : m.conditions with
  | nil =>
    rw [hm] at h
    exact (throw_ok.mp h).elim
  | cons x u =>
    rw [hm] at h
    obtain rfl := modify_ok.mp h
    exact ⟨x, u, rfl, rfl⟩

section

variable [Crypto]

lemma perform_turns (h : c.perform i i.opcode.operation m = .ok y n) :
    Turns i m.conditions n.conditions := by
  cases ho : i.opcode.operation with
  | branch negate =>
    rw [ho] at h
    obtain ⟨x, hx, hn⟩ := openBranch_conditions h
    rw [hn]
    exact .branch ho hx
  | otherwise =>
    rw [ho] at h
    obtain ⟨x, u, hm, hn⟩ := changeBranch_conditions h
    rw [hm, hn]
    exact .otherwise ho
  | endBranch =>
    rw [ho] at h
    obtain ⟨x, u, hm, hn⟩ := changeBranch_conditions h
    rw [hm, hn]
    exact .endBranch ho
  | _ =>
    have hb : i.opcode.operation.isBranching = false := by rw [ho]; rfl
    rw [conditions_of_simulates (fun _ => perform_simulates c i _ hb) h]
    exact .plain hb

lemma runOne_turns (h : c.runOne i rest m = .ok y n) : Turns i m.conditions n.conditions := by
  obtain ⟨-, -, h, -⟩ := runOne_ok.mp h
  split at h
  · obtain ⟨m', hp, hr⟩ := h
    obtain rfl := modify_ok.mp hr
    have ht : Turns i (m.entering i rest).conditions m'.conditions := perform_turns hp
    exact ht
  · next hi =>
    have hb : i.opcode.operation.isBranching = false := by
      rw [← Bool.not_eq_true, isBranching_iff]
      exact (not_or.mp hi).2
    rw [← h]
    exact .plain hb

namespace Advances

lemma nested (h : c.Advances l m n) (hm : Nested m.conditions) : Nested n.conditions :=
  h.invariant hm fun _ _ _ _ hk hr => (runOne_turns hr).nested hk

lemma length_conditions (h : c.Advances l m n) :
    n.conditions.length + l.countP (·.closes) = m.conditions.length + l.countP (·.opens) := by
  induction h with
  | nil m => rfl
  | cons hm hs _ ih =>
    have hl := (runOne_turns ((step_ok hm).mp hs).1).length
    rw [List.countP_cons, List.countP_cons]
    omega

lemma closes (h : c.Advances l m n) (hn : n.conditions = []) : Closes m.conditions.length l := by
  induction h with
  | nil m =>
    rw [hn]
    exact .nil
  | cons hm hs _ ih => exact (runOne_turns ((step_ok hm).mp hs).1).closes (ih hn)

end Advances

/-- From no open conditional on, the open conditionals are always as many as the instructions have opened
and not closed, and they are nested; so an instruction runs when all of them run. When a run succeeds, its
program closes every conditional, and has every ELSE inside one, in branches that run and in those that do
not. -/
theorem run_nested (hm : m.conditions = []) :
    (∀ l n, c.Advances l m n →
      n.conditions.length + l.countP (·.closes) = l.countP (·.opens) ∧ Nested n.conditions ∧
        (n.executing = true ↔ ∀ x ∈ n.conditions, x = .active)) ∧
    ∀ p final m', c.run p final m = .ok () m' → IsBlock p := by
  constructor
  · intro l n hl
    have hn : Nested n.conditions := hl.nested (hm ▸ Nested.nil)
    have hlength := hl.length_conditions
    rw [hm, List.length_nil, Nat.zero_add] at hlength
    exact ⟨hlength, hn, (Machine.executing_congr rfl).symm ▸ hn.executing_iff⟩
  · intro p final m' h
    obtain ⟨hrun, hc, -⟩ := run_ok.mp h
    have hp : c.Advances p { m with program := p, opCount := 0 } m' := .of_runAll rfl hrun
    have hclosed := hp.closes hc
    rwa [hm] at hclosed

end

/-- The program `OP_IF OP_IF OP_ELSE OP_ENDIF OP_ELSE OP_NOP OP_ENDIF` on a false item, which has the inner
conditional skipped. -/
theorem run_nested_skipped :
    let p : List Instruction := [0x63, 0x63, 0x67, 0x68, 0x67, 0x61, 0x68].map .op
    let m : Machine := { stack := [[]], program := p }
    let n : Machine :=
      { conditions := [.skipped, .inactive], opCount := 3, program := p.drop 3, stepCount := 3 }
    m.conditions = [] ∧ IsBlock p ∧
      @Advances Crypto.bitcoin {} (p.take 3) m n ∧ Nested n.conditions ∧
        (n.executing = true ↔ ∀ x ∈ n.conditions, x = .active) := by
  let _ := Crypto.bitcoin
  intro p m n
  have hp : run {} p false m = .ok () { opCount := 7, stepCount := 7 } := rfl
  have hl : Advances {} (p.take 3) m n := by
    iterate 3 apply Advances.cons rfl rfl
    exact .nil n
  obtain ⟨hopen, hrun⟩ := run_nested (c := {}) (m := m) rfl
  exact ⟨rfl, hrun p false _ hp, hl, (hopen (p.take 3) n hl).2⟩

end Evaluator

end BitcoinTx
