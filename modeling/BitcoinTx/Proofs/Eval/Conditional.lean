import BitcoinTx.Proofs.Eval.Steps

/-! Conditionals: a branch that does not run leaves the stack and the conditionals alone, and one that runs
does what it does outside. -/

namespace BitcoinTx

open Outcome

/-- Of the conditionals open around them, `d` in number, the instructions close all, and no other. -/
inductive Closes : Nat → List Instruction → Prop
  | nil : Closes 0 []
  | plain {d : Nat} {i : Instruction} {l : List Instruction} (ho : i.opcode.operation.isBranching = false)
      (hl : Closes d l) : Closes d (i :: l)
  | branch {d : Nat} {i : Instruction} {l : List Instruction} {negate : Bool}
      (ho : i.opcode.operation = .branch negate) (hl : Closes (d + 1) l) : Closes d (i :: l)
  | otherwise {d : Nat} {i : Instruction} {l : List Instruction}
      (ho : i.opcode.operation = .otherwise) (hl : Closes (d + 1) l) : Closes (d + 1) (i :: l)
  | endBranch {d : Nat} {i : Instruction} {l : List Instruction}
      (ho : i.opcode.operation = .endBranch) (hl : Closes d l) : Closes (d + 1) (i :: l)

def IsBlock (l : List Instruction) : Prop := Closes 0 l

def conditional (negate : Bool) (l l' : List Instruction) : List Instruction :=
  .op (if negate then 0x64 else 0x63) :: (l ++ .op 0x67 :: (l' ++ [.op 0x68]))

lemma isBranching_iff (op : Opcode) : op.operation.isBranching = true ↔ op.IsConditional := by
  have h : ∀ n < 256,
      (Opcode.operation (.ofNat n)).isBranching = true ↔ Opcode.IsConditional (.ofNat n) := by
    decide +kernel
  simpa using h op.toNat op.toNat_lt

namespace Evaluator

variable [Crypto] (c : Evaluator)

def outcome (l : List Instruction) (m : Machine) : Except Stop Stack :=
  match c.runAll l m with
  | .ok _ m' => .ok m'.stack
  | .error e _ => .error e

/-- The program fails for the operations it counts or for an element it holds. -/
def Exceeds (l : List Instruction) (m : Machine) : Prop :=
  ∃ e, c.outcome l m = .error e ∧ e.IsLimit

end Evaluator

variable {c : Evaluator} {σ : Stack → Stack → Prop} {ρ ρ' : List Condition → List Condition → Prop}

/-- The machine `n` is some operations ahead of `m`, and its stack is within the limit. -/
structure Follows (c : Evaluator) (σ : Stack → Stack → Prop)
    (ρ : List Condition → List Condition → Prop) (m n : Machine) : Prop where
  stack : σ m.stack n.stack
  conditions : ρ m.conditions n.conditions
  opCount : m.opCount ≤ n.opCount
  depth : n.stack.length ≤ c.limits.maxStackSize

namespace Evaluator

section

variable {i : Instruction} {rest : List Instruction}

lemma countOps_alone (k : Nat) :
    Simulates (Follows c σ ρ) (Follows c σ ρ) (pure ()) (c.countOps k) := by
  refine (Simulates.modify_alone (S := Follows c σ ρ) ?_).after (.get_after fun n => ?_)
  · intro m n h
    exact ⟨h.stack, h.conditions, Nat.le_trans h.opCount (Nat.le_add_right _ _), h.depth⟩
  · split
    · exact .throw_limit trivial
    · exact .pure _

lemma countInstruction_alone :
    Simulates (Follows c σ ρ) (Follows c σ ρ) (pure ()) (c.countInstruction i) := by
  rw [countInstruction]
  split
  · exact countOps_alone 1
  · exact .pure _

lemma checkElement_alone :
    Simulates (Follows c σ ρ) (Follows c σ ρ) (pure ()) (c.checkElement i) := by
  rw [checkElement]
  split
  · exact .throw_limit trivial
  · exact .pure _

lemma checkDepth_alone :
    Simulates (Follows c σ ρ) (Follows c σ ρ) (pure ()) c.checkDepth :=
  fun m n h => .inl ⟨(), m, n, rfl, checkDepth_ok.mpr ⟨h.depth, rfl⟩, h⟩

lemma changeBranch_alone {op : Opcode} {f : Condition → List Condition}
    (hf : ∀ u v, ρ u v → ∃ x v', v = x :: v' ∧ ρ' u (f x ++ v')) :
    Simulates (Follows c Eq ρ) (Follows c Eq ρ') (pure ()) (changeBranch op f) := by
  intro m n h
  obtain ⟨x, v, hv, hρ⟩ := hf _ _ h.conditions
  refine .inl ⟨(), m, { n with conditions := f x ++ v }, rfl, ?_, h.stack, hρ, h.opCount, h.depth⟩
  rw [changeBranch, get_bind_ok, hv]
  rfl

lemma openBranch_alone {negate : Bool}
    (hx : ∀ u v, ρ u v → Machine.executing { conditions := v } = false)
    (hρ : ∀ u v, ρ u v → ρ' u (.skipped :: v)) :
    Simulates (Follows c Eq ρ) (Follows c Eq ρ') (pure ()) (openBranch negate) := by
  intro m n h
  have hn : n.executing = false := (Machine.executing_congr rfl).trans (hx _ _ h.conditions)
  refine .inl ⟨(), m, { n with conditions := .skipped :: n.conditions }, rfl, ?_,
    h.stack, hρ _ _ h.conditions, h.opCount, h.depth⟩
  rw [openBranch, get_bind_ok, hn]
  rfl

lemma popCondition_ofBool {b : Bool} {s : Stack} {m : Machine}
    (hs : m.stack = ScriptNumber.ofBool b :: s) : popCondition m = .ok b { m with stack := s } := by
  rw [popCondition, pop_bind_ok]
  exact ⟨_, s, hs, by cases b <;> rfl⟩

lemma openBranch_taken {negate b : Bool} {s : Stack} {u : List Condition}
    (hx : Machine.executing { conditions := u } = true) :
    Simulates (Follows c (fun s' t => s' = s ∧ t = ScriptNumber.ofBool b :: s) fun v w => v = u ∧ w = u)
      (Follows c Eq fun v w => v = u ∧ w = (if b = negate then .inactive else .active) :: u)
      (pure ()) (openBranch negate) := by
  rintro m n ⟨⟨hs, ht⟩, ⟨hu, hv⟩, hcount, hd⟩
  have hn : n.executing = true := (Machine.executing_congr hv).trans hx
  have hlt : s.length ≤ c.limits.maxStackSize := by
    rw [ht, List.length_cons] at hd
    omega
  refine .inl ⟨(), m, { n with
    stack := s, conditions := (if b = negate then .inactive else .active) :: u }, rfl, ?_,
    hs, ⟨hu, rfl⟩, hcount, hlt⟩
  rw [openBranch, get_bind_ok, if_pos hn]
  refine bind_ok.mpr ⟨b, { n with stack := s }, popCondition_ofBool ht, ?_⟩
  exact modify_ok.mpr (by rw [hv])

variable [Crypto]

lemma runOne_alone (hp : Simulates (Follows c σ ρ) (Follows c Eq ρ') (pure ()) (c.performRunning i rest)) :
    Simulates (Follows c σ ρ) (Follows c Eq ρ') (pure ()) (c.runOne i rest) := by
  have hprogram : Simulates (Follows c σ ρ) (Follows c σ ρ) (pure ())
      (modify fun m => { m with program := rest }) :=
    .modify_alone fun _ _ h => ⟨h.stack, h.conditions, h.opCount, h.depth⟩
  apply hprogram.after
  apply countInstruction_alone.after
  apply checkElement_alone.after
  exact hp.after checkDepth_alone

lemma runOne_alone_of_conditional (hi : i.opcode.IsConditional)
    (hp : Simulates (Follows c σ ρ) (Follows c Eq ρ') (pure ()) (c.perform i i.opcode.operation)) :
    Simulates (Follows c σ ρ) (Follows c Eq ρ') (pure ()) (c.runOne i rest) := by
  have hrecord : Simulates (Follows c Eq ρ') (Follows c Eq ρ') (pure ()) (record i rest) :=
    .modify_alone fun _ _ h => ⟨h.stack, h.conditions, h.opCount, h.depth⟩
  have hrunning : c.performRunning i rest =
      c.perform i i.opcode.operation >>= fun _ => record i rest := by
    rw [performRunning]
    simp only [hi, or_true, if_true]
    rfl
  apply runOne_alone
  rw [hrunning]
  exact hp.after hrecord

lemma runOne_alone_of_branching {o : Operation} (ho : i.opcode.operation = o) (hb : o.isBranching = true)
    (hp : Simulates (Follows c σ ρ) (Follows c Eq ρ') (pure ()) (c.perform i o)) :
    Simulates (Follows c σ ρ) (Follows c Eq ρ') (pure ()) (c.runOne i rest) := by
  subst ho
  exact runOne_alone_of_conditional ((isBranching_iff _).mp hb) hp

end

section

variable {d : Nat} {i : Instruction} {rest l l' : List Instruction} {u v : List Condition}

def At (u v : List Condition) (w x : List Condition) : Prop := w = u ∧ x = v

/-- On both machines the same `d` conditionals are open in front of `u` and of `v`. -/
def Framed (u v : List Condition) (d : Nat) (w x : List Condition) : Prop :=
  ∃ k, k.length = d ∧ w = k ++ u ∧ x = k ++ v

lemma executing_at_skipped (hv : Machine.executing { conditions := v } = false) {w x : List Condition}
    (h : At u (List.replicate d .skipped ++ v) w x) : Machine.executing { conditions := x } = false := by
  obtain ⟨-, rfl⟩ := h
  cases d with
  | zero => exact hv
  | succ d => rfl

lemma executing_framed (hu : Machine.executing { conditions := u } = true)
    (hv : Machine.executing { conditions := v } = true) {m n : Machine}
    (h : Framed u v d m.conditions n.conditions) : n.executing = m.executing := by
  obtain ⟨k, -, hm, hn⟩ := h
  cases k with
  | nil =>
    have hm : m.executing = true := (Machine.executing_congr hm).trans hu
    exact ((Machine.executing_congr hn).trans hv).trans hm.symm
  | cons x k =>
    rw [Machine.executing, Machine.executing, hm, hn]
    cases x <;> rfl

variable [Crypto]

lemma changeBranch_at {o : Opcode} {x : Condition} {f : Condition → List Condition}
    (hi : o.IsConditional)
    (ho : ∀ i : Instruction, c.perform i o.operation = changeBranch i.opcode f) :
    Simulates (Follows c Eq (At u (x :: v))) (Follows c Eq (At u (f x ++ v))) (pure ())
      (c.runOne (.op o) rest) := by
  apply runOne_alone_of_conditional hi
  simp only [Instruction.op, ho]
  apply changeBranch_alone
  rintro _ _ ⟨rfl, rfl⟩
  exact ⟨x, v, rfl, rfl, rfl⟩

lemma runAll_skipped (hv : Machine.executing { conditions := v } = false) (h : Closes d l) :
    Simulates (Follows c Eq (At u (List.replicate d .skipped ++ v))) (Follows c Eq (At u v)) (pure ())
      (c.runAll l) := by
  -- what the block has opened so far is skipped, and its ELSE does not change that
  induction h with
  | nil => exact .pure _
  | @plain d i l ho _ ih =>
    have hi : ¬ i.opcode.IsConditional := by rw [← isBranching_iff, ho]; decide
    apply (runOne_alone ?_).after ih
    intro m n h
    have hx : n.executing = false := executing_at_skipped hv h.conditions
    refine .inl ⟨(), m, n, rfl, performRunning_ok.mpr ?_, h⟩
    rw [if_neg (by simp [hx, hi])]
  | @branch d i l negate ho _ ih =>
    apply (runOne_alone_of_branching ho rfl ?_).after ih
    exact openBranch_alone (fun _ _ => executing_at_skipped hv) fun _ _ h => ⟨h.1, congrArg _ h.2⟩
  | @otherwise d i l ho _ ih =>
    apply (runOne_alone_of_branching ho rfl (changeBranch_alone ?_)).after ih
    rintro _ _ ⟨rfl, rfl⟩
    exact ⟨.skipped, _, rfl, rfl, rfl⟩
  | @endBranch d i l ho _ ih =>
    apply (runOne_alone_of_branching ho rfl (changeBranch_alone ?_)).after ih
    rintro _ _ ⟨rfl, rfl⟩
    exact ⟨.skipped, _, rfl, rfl, rfl⟩

lemma runOne_follows (hx : ∀ m n : Machine, ρ m.conditions n.conditions → n.executing = m.executing)
    (hp : ∀ k, Simulates (Ahead k ρ) (Ahead k ρ') (c.perform i i.opcode.operation)
      (c.perform i i.opcode.operation))
    (hρ : ¬ i.opcode.IsConditional → ∀ u v, ρ u v → ρ' u v) :
    Simulates (Follows c Eq ρ) (Follows c Eq ρ') (c.runOne i rest) (c.runOne i rest) := by
  intro m n h
  obtain ⟨k, hk⟩ := Nat.exists_eq_add_of_le h.opCount
  have ha : Ahead k ρ m n := ⟨h.stack.symm, h.conditions, hk⟩
  obtain ⟨a, m', n', hm, hn, h⟩ | h := runOne_simulates c i rest rest hx (hp k) hρ ha
  · have hle : m'.opCount ≤ n'.opCount := h.opCount ▸ Nat.le_add_right _ k
    exact .inl ⟨a, m', n', hm, hn, h.stack.symm, h.conditions, hle, (runOne_ok.mp hn).2.2.2⟩
  · exact .inr h

lemma runOne_follows_of_branching {o : Operation} (ho : i.opcode.operation = o)
    (hb : o.isBranching = true)
    (hx : ∀ m n : Machine, ρ m.conditions n.conditions → n.executing = m.executing)
    (hp : ∀ k, Simulates (Ahead k ρ) (Ahead k ρ') (c.perform i o) (c.perform i o)) :
    Simulates (Follows c Eq ρ) (Follows c Eq ρ') (c.runOne i rest) (c.runOne i rest) := by
  subst ho
  exact runOne_follows hx hp fun hi => (hi ((isBranching_iff _).mp hb)).elim

lemma runAll_framed (hu : Machine.executing { conditions := u } = true)
    (hv : Machine.executing { conditions := v } = true) (h : Closes d l) :
    Simulates (Follows c Eq (Framed u v d)) (Follows c Eq (Framed u v 0)) (c.runAll l) (c.runAll l) := by
  have hx {d : Nat} (m n : Machine) (h : Framed u v d m.conditions n.conditions) :
      n.executing = m.executing := executing_framed hu hv h
  -- the `d` conditionals that the block has opened so far stay equal on both machines
  induction h with
  | nil => exact .pure _
  | @plain d i l ho _ ih =>
    exact (runOne_follows hx (fun _ => perform_simulates c i _ ho) fun _ _ _ h => h).bind fun _ => ih
  | @branch d i l negate ho _ ih =>
    refine (runOne_follows_of_branching ho rfl hx ?_).bind fun _ => ih
    refine fun _ => openBranch_simulates negate hx ?_
    rintro x _ _ ⟨k, hk, rfl, rfl⟩
    exact ⟨x :: k, congrArg Nat.succ hk, rfl, rfl⟩
  | @otherwise d i l ho _ ih =>
    refine (runOne_follows_of_branching ho rfl hx ?_).bind fun _ => ih
    refine fun _ => changeBranch_simulates _ _ ?_
    rintro _ _ ⟨_, hk, rfl, rfl⟩
    obtain ⟨x, k, rfl⟩ := List.exists_cons_of_length_eq_add_one hk
    exact .inr ⟨x, k ++ u, k ++ v, rfl, rfl, x.flip :: k, hk, rfl, rfl⟩
  | @endBranch d i l ho _ ih =>
    refine (runOne_follows_of_branching ho rfl hx ?_).bind fun _ => ih
    refine fun _ => changeBranch_simulates _ _ ?_
    rintro _ _ ⟨_, hk, rfl, rfl⟩
    obtain ⟨x, k, rfl⟩ := List.exists_cons_of_length_eq_add_one hk
    exact .inr ⟨x, k ++ u, k ++ v, rfl, rfl, k, Nat.succ.inj hk, rfl, rfl⟩

lemma runAll_running (hl : IsBlock l) (hu : Machine.executing { conditions := u } = true)
    (hv : Machine.executing { conditions := v } = true) :
    Simulates (Follows c Eq (At u v)) (Follows c Eq (At u v)) (c.runAll l) (c.runAll l) := by
  refine (runAll_framed hu hv hl).mono ?_ ?_
  · rintro m n ⟨hs, ⟨hm, hn⟩, ho, hd⟩
    exact ⟨hs, ⟨[], rfl, hm, hn⟩, ho, hd⟩
  · rintro m n ⟨hs, ⟨k, hk, hm, hn⟩, ho, hd⟩
    obtain rfl := List.eq_nil_of_length_eq_zero hk
    exact ⟨hs, ⟨hm, hn⟩, ho, hd⟩

lemma simulates_append {x : EvalM Unit} {R : Machine → Machine → Prop}
    (h : Simulates R (Follows c Eq ρ) x (c.runAll l >>= fun _ => c.runAll l')) :
    Simulates R (Follows c Eq ρ) x (c.runAll (l ++ l')) := by
  refine h.trans (runAll_append_simulates l l') (fun _ n _ => .refl n) ?_
  rintro m n k ⟨hs, hc, ho, hd⟩ ha
  have hle : n.opCount ≤ k.opCount := ha.opCount ▸ Nat.le_add_right _ 0
  exact ⟨hs.trans ha.stack.symm, ha.conditions ▸ hc, Nat.le_trans ho hle, ha.stack ▸ hd⟩

lemma runOne_else {x : Condition} :
    Simulates (Follows c Eq (At u (x :: u))) (Follows c Eq (At u (x.flip :: u))) (pure ())
      (c.runOne (.op 0x67) rest) :=
  changeBranch_at (f := fun x => [x.flip]) (by decide) fun _ => rfl

lemma runAll_endif {x : Condition} :
    Simulates (Follows c Eq (At u (x :: u))) (Follows c Eq (At u u)) (pure ()) (c.runAll [.op 0x68]) :=
  (changeBranch_at (f := fun _ => []) (by decide) fun _ => rfl).after (.pure _)

lemma runOne_if {negate b : Bool} {s : Stack} (hu : Machine.executing { conditions := u } = true) :
    Simulates (Follows c (fun s' t => s' = s ∧ t = ScriptNumber.ofBool b :: s) (At u u))
      (Follows c Eq (At u ((if b = negate then .inactive else .active) :: u))) (pure ())
      (c.runOne (.op (if negate then 0x64 else 0x63)) rest) := by
  have hi : Opcode.IsConditional (if negate then 0x64 else 0x63) := by cases negate <;> decide
  have ho : Opcode.operation (if negate then 0x64 else 0x63) = .branch negate := by
    cases negate <;> rfl
  apply runOne_alone_of_conditional hi
  simp only [Instruction.op, ho]
  exact openBranch_taken hu

lemma runAll_conditional {negate b : Bool} {s : Stack} (hl : IsBlock l) (hl' : IsBlock l')
    (hu : Machine.executing { conditions := u } = true) :
    Simulates (Follows c (fun s' t => s' = s ∧ t = ScriptNumber.ofBool b :: s) (At u u))
      (Follows c Eq (At u u)) (c.runAll (if b = negate then l' else l))
      (c.runAll (conditional negate l l')) := by
  have hskip {l : List Instruction} (hl : IsBlock l) :
      Simulates (Follows c Eq (At u (.inactive :: u))) (Follows c Eq (At u (.inactive :: u))) (pure ())
        (c.runAll l) := runAll_skipped rfl hl
  have hrun {l : List Instruction} (hl : IsBlock l) :
      Simulates (Follows c Eq (At u (.active :: u))) (Follows c Eq (At u (.active :: u))) (c.runAll l)
        (c.runAll l) := runAll_running hl hu rfl
  apply (runOne_if hu).after
  apply simulates_append
  by_cases hb : b = negate
  · rw [if_pos hb, if_pos hb]
    apply (hskip hl).after
    apply runOne_else.after
    apply simulates_append
    exact (hrun hl').before runAll_endif
  · rw [if_neg hb, if_neg hb]
    apply (hrun hl).before
    apply runOne_else.after
    apply simulates_append
    exact (hskip hl').after runAll_endif

lemma runs_or_exceeds {R : Machine → Machine → Prop} {x : EvalM Unit} {m n : Machine}
    (h : Simulates R (Follows c Eq (At u v)) x (c.runAll l)) (hr : R m n) (hn : ¬ c.Exceeds l n) :
    (∃ m' n', x m = .ok () m' ∧ c.runAll l n = .ok () n' ∧ n'.stack = m'.stack ∧
      n'.conditions = v) ∨
    ∃ e m' n', x m = .error e m' ∧ c.runAll l n = .error e n' := by
  obtain ⟨_, m', n', hx, hn', hf⟩ | hx | ⟨e, n', hn', he⟩ := h hr
  · exact .inl ⟨m', n', hx, hn', hf.stack.symm, hf.conditions.2⟩
  · exact .inr hx
  · exact (hn ⟨e, by rw [outcome, hn'], he⟩).elim

end

section

variable [Crypto] {c : Evaluator} {l l' : List Instruction} {m : Machine}

/-- A block in a branch that does not run leaves the stack and the conditionals as they are. In a branch
that runs, a conditional on top of its condition does what the block that the condition selects does once
the condition is popped, and it is closed again when it succeeds. -/
theorem conditional_selects (hl : IsBlock l) (hl' : IsBlock l')
    (hd : m.stack.length ≤ c.limits.maxStackSize) :
    (m.executing = false → ¬ c.Exceeds l m →
      ∃ m', c.runAll l m = .ok () m' ∧ m'.stack = m.stack ∧ m'.conditions = m.conditions) ∧
    ∀ (negate b : Bool) (s : Stack), m.executing = true → m.stack = ScriptNumber.ofBool b :: s →
      ¬ c.Exceeds (conditional negate l l') m →
        c.outcome (conditional negate l l') m =
          c.outcome (if b = negate then l' else l) { m with stack := s } ∧
        ∀ m', c.runAll (conditional negate l l') m = .ok () m' → m'.conditions = m.conditions := by
  refine ⟨fun hm hn => ?_, fun negate b s hm hs hn => ?_⟩
  · have hf : Follows c Eq (At m.conditions m.conditions) m m := ⟨rfl, ⟨rfl, rfl⟩, Nat.le_refl _, hd⟩
    obtain ⟨m', n', hm', hn', h⟩ | ⟨e, m', n', hm', -⟩ := runs_or_exceeds (runAll_skipped hm hl) hf hn
    · obtain ⟨-, rfl⟩ := pure_ok.mp hm'
      exact ⟨n', hn', h⟩
    · cases hm'
  · have hf : Follows c (fun s' t => s' = s ∧ t = ScriptNumber.ofBool b :: s)
        (At m.conditions m.conditions) { m with stack := s } m :=
      ⟨⟨rfl, hs⟩, ⟨rfl, rfl⟩, Nat.le_refl _, hd⟩
    rw [outcome, outcome]
    obtain ⟨m', n', hm', hn', hs', hc⟩ | ⟨e, m', n', hm', hn'⟩ :=
      runs_or_exceeds (runAll_conditional hl hl' hm) hf hn
    · rw [hm', hn']
      refine ⟨congrArg _ hs', fun k hk => ?_⟩
      cases hk
      exact hc
    · rw [hm', hn']
      exact ⟨rfl, fun k hk => (by cases hk)⟩

end

/-- The script `OP_IF OP_IF OP_2 OP_ELSE OP_RETURN OP_ENDIF OP_ELSE OP_3 OP_ENDIF` on two true items, and
its inner conditional in a branch that does not run. -/
theorem conditional_selects_nested :
    @outcome Crypto.bitcoin {} (conditional false (conditional false [.op 0x52] [.op 0x6a]) [.op 0x53])
        { stack := [[1], [1]] } =
      @outcome Crypto.bitcoin {} (conditional false [.op 0x52] [.op 0x6a]) { stack := [[1]] } ∧
    ∃ m', @runAll Crypto.bitcoin {} (conditional false [.op 0x52] [.op 0x6a])
        { conditions := [.inactive] } = .ok () m' ∧ m'.stack = [] ∧ m'.conditions = [.inactive] := by
  have hinner : IsBlock (conditional false [.op 0x52] [.op 0x6a]) :=
    .branch rfl (.plain rfl (.otherwise rfl (.plain rfl (.endBranch rfl .nil))))
  have hother : IsBlock [.op 0x53] := .plain rfl .nil
  have hrun : ¬ @Exceeds Crypto.bitcoin {}
      (conditional false (conditional false [.op 0x52] [.op 0x6a]) [.op 0x53])
      { stack := [[1], [1]] } := by
    rintro ⟨e, h, -⟩
    have h' : @outcome Crypto.bitcoin {}
        (conditional false (conditional false [.op 0x52] [.op 0x6a]) [.op 0x53])
        { stack := [[1], [1]] } = .ok [[2]] := by decide +kernel
    rw [h'] at h
    cases h
  have hskip : ¬ @Exceeds Crypto.bitcoin {} (conditional false [.op 0x52] [.op 0x6a])
      { conditions := [.inactive] } := by
    rintro ⟨e, h, -⟩
    have h' : @outcome Crypto.bitcoin {} (conditional false [.op 0x52] [.op 0x6a])
        { conditions := [.inactive] } = .ok [] := by decide +kernel
    rw [h'] at h
    cases h
  constructor
  · exact ((@conditional_selects Crypto.bitcoin {} _ _ { stack := [[1], [1]] } hinner hother
      (by decide)).2 false true [[1]] rfl rfl hrun).1
  · exact (@conditional_selects Crypto.bitcoin {} _ _ { conditions := [.inactive] } hinner hother
      (by decide)).1 rfl hskip

end Evaluator

end BitcoinTx
