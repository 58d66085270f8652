import BitcoinTx.Proofs.Eval.Local

/-! Verification does not depend on what earlier runs have left behind. -/

namespace BitcoinTx

open Outcome

/-- From machines that `R` relates, `x` gives the same answer and ends in the same state. What was traced
before stays. -/
structure Repeats {α : Type} (R : Machine → Machine → Prop) (x : EvalM α) : Prop where
  same : ∀ m n, R m n → x.answer m = x.answer n ∧ (x.after m).state = (x.after n).state
  trace : ∀ m, ∃ steps, (x.after m).trace = m.trace.map (steps ++ ·)

def SameState (m n : Machine) : Prop := m.state = n.state

namespace Repeats

variable {α β : Type} {R : Machine → Machine → Prop} {x y : EvalM α}

lemma of_local (h : IsLocal x) : Repeats SameState x := by
  constructor
  · intro m n hs
    have hn := h n m
    rw [Machine.withState_of_state hs] at hn
    rw [EvalM.answer, EvalM.answer, EvalM.after, EvalM.after, hn]
    cases x m <;> exact ⟨rfl, rfl⟩
  · intro m
    refine ⟨[], ?_⟩
    rw [h.after_eq]
    exact Option.map_id'.symm

lemma pure (a : α) : Repeats SameState (pure a : EvalM α) := of_local (.pure a)

lemma throw (e : Stop) : Repeats SameState (throw e : EvalM α) := of_local (.throw e)

lemma bind {f : α → EvalM β} (hx : Repeats R x) (hf : ∀ a, Repeats SameState (f a)) :
    Repeats R (x >>= f) := by
  constructor
  · intro m n h
    obtain ⟨ha, hs⟩ := hx.same m n h
    rw [EvalM.answer_bind, EvalM.answer_bind, EvalM.after_bind, EvalM.after_bind, ha]
    cases x.answer n with
    | ok a => exact (hf a).same _ _ hs
    | error e => exact ⟨rfl, hs⟩
  · intro m
    obtain ⟨steps, ht⟩ := hx.trace m
    rw [EvalM.after_bind]
    cases x.answer m with
    | ok a =>
      obtain ⟨steps', ht'⟩ := (hf a).trace (x.after m)
      refine ⟨steps' ++ steps, ?_⟩
      rw [ht', ht, Option.map_map]
      simp only [Function.comp_def, List.append_assoc]
    | error e => exact ⟨steps, ht⟩

lemma get_bind {f : Machine → EvalM α} (hf : ∀ m, Repeats SameState (f m))
    (hs : ∀ m n : Machine, m.state = n.state → f m = f n) : Repeats SameState (get >>= f) := by
  constructor
  · intro m n h
    have hmn := (hf m).same m n h
    rw [EvalM.answer, EvalM.answer, EvalM.after, EvalM.after, EvalM.get_bind, EvalM.get_bind,
      ← hs m n h]
    exact hmn
  · exact fun m => (hf m).trace m

lemma modify {f : Machine → Machine} (hs : ∀ m n, R m n → (f m).state = (f n).state)
    (ht : ∀ m, ∃ steps, (f m).trace = m.trace.map (steps ++ ·)) : Repeats R (modify f) :=
  ⟨fun m n h => ⟨rfl, hs m n h⟩, ht⟩

lemma ite {p : Prop} [Decidable p] (hx : Repeats R x) (hy : Repeats R y) :
    Repeats R (if p then x else y) := by
  split
  · exact hx
  · exact hy

end Repeats

lemma trace_unchanged {m n : Machine} (h : n.trace = m.trace) :
    ∃ steps, n.trace = m.trace.map (steps ++ ·) :=
  ⟨[], h.trans Option.map_id'.symm⟩

namespace Evaluator

variable (c : Evaluator)

lemma record_repeats (i : Instruction) (rest : List Instruction) : Repeats SameState (record i rest) := by
  apply Repeats.modify
  · exact fun _ _ h => h
  · exact fun m => ⟨[⟨m.stepCount + 1, i.opcode, m.stack, rest⟩], rfl⟩

lemma requireTrueTop_local : IsLocal requireTrueTop := by
  apply IsLocal.get_bind
  · intro m
    match m.stack with
    | [] => exact .throw _
    | x :: s => exact .ite (.throw _) (.pure ())
  · exact fun _ _ => rfl

lemma checkSize_local (u : Script) : IsLocal (c.checkSize u) := .ite (.throw _) (.pure ())

lemma parse_repeats (u : Script) : Repeats SameState (parse u) := .of_local (.ofExcept _)

lemma reset_repeats {R : Machine → Machine → Prop} (s : Stack) :
    Repeats R (modify fun m => { m.reset with stack := s }) :=
  .modify (fun _ _ _ => rfl) fun _ => trace_unchanged rfl

section

variable [Crypto]

lemma runOne_repeats (i : Instruction) (rest : List Instruction) :
    Repeats SameState (c.runOne i rest) := by
  have hrunning : Repeats SameState (c.performRunning i rest) := by
    apply Repeats.get_bind
    · intro m
      apply Repeats.ite
      · exact (Repeats.of_local (perform_local c i _)).bind fun _ => record_repeats i rest
      · exact .pure ()
    · intro m n h
      rw [Machine.executing_congr (congrArg EvalState.conditions h)]
  have hprogram : Repeats SameState (modify fun m => { m with program := rest }) :=
    .modify (fun _ _ h => h) fun _ => trace_unchanged rfl
  apply hprogram.bind
  intro _
  apply (Repeats.of_local (countInstruction_local c i)).bind
  intro _
  apply (Repeats.of_local (checkElement_local c i)).bind
  exact fun _ => hrunning.bind fun _ => .of_local (checkDepth_local c)

lemma runAll_repeats (l : List Instruction) : Repeats SameState (c.runAll l) := by
  induction l with
  | nil => exact .pure ()
  | cons i l ih => exact (runOne_repeats c i l).bind fun _ => ih

lemma run_repeats (p : List Instruction) (final : Bool) : Repeats SameState (c.run p final) := by
  have hstart : Repeats SameState (modify fun m => { m with program := p, opCount := 0 }) := by
    apply Repeats.modify
    · exact fun m n h => congrArg (fun a => EvalState.mk a.stack a.conditions 0) h
    · exact fun _ => trace_unchanged rfl
  have hend : IsLocal (do
      if !(← get).conditions.isEmpty then fail .unclosed
      if final then requireTrueTop) := by
    apply IsLocal.get_bind
    · exact fun m => .ite (.throw_bind _ _) (.ite requireTrueTop_local (.pure ()))
    · exact fun _ _ => rfl
  exact hstart.bind fun _ => (runAll_repeats c p).bind fun _ => .of_local hend

lemma runRedeem_repeats (s : Stack) : Repeats SameState (c.runRedeem s) := by
  apply (reset_repeats s).bind
  intro _
  apply (Repeats.of_local (.onStack _)).bind
  intro redeem
  apply (Repeats.of_local (checkSize_local c ⟨redeem⟩)).bind
  exact fun _ => (parse_repeats _).bind fun p => run_repeats c p true

lemma verify_repeats {u l : Script} (hu : u.size ≤ c.limits.maxScriptSize)
    (hl : l.size ≤ c.limits.maxScriptSize) {R : Machine → Machine → Prop} : Repeats R (c.verify u l) := by
  have hsize {s : Script} (hs : s.size ≤ c.limits.maxScriptSize) : c.checkSize s = pure () :=
    if_neg (Nat.not_lt.mpr hs)
  rw [verify, hsize hu, hsize hl, pure_bind, pure_bind]
  -- now the reset comes first, and after it the machines have the same state whatever `R` says
  apply (reset_repeats []).bind
  intro _
  apply (parse_repeats u).bind
  intro p
  apply (run_repeats c p false).bind
  intro _
  apply Repeats.get_bind
  · intro m
    apply (reset_repeats []).bind
    intro _
    apply (parse_repeats u).bind
    intro first
    apply (parse_repeats l).bind
    intro second
    apply (run_repeats c (first ++ second) true).bind
    intro _
    apply Repeats.get_bind
    · intro n
      apply Repeats.ite (.pure ())
      exact .ite (.of_local (.throw_bind _ _)) (runRedeem_repeats c m.stack)
    · intro n n' h
      have hs : n.stack = n'.stack := congrArg EvalState.stack h
      rw [hs]
  · intro m n h
    have hs : m.stack = n.stack := congrArg EvalState.stack h
    rw [hs]

lemma verify_oversized {u l : Script}
    (h : ¬ (u.size ≤ c.limits.maxScriptSize ∧ l.size ≤ c.limits.maxScriptSize)) :
    ∃ k, ∀ m, c.verify u l m = .error (.error (.scriptSize k c.limits.maxScriptSize)) m := by
  by_cases hu : u.size ≤ c.limits.maxScriptSize
  · have hl : c.limits.maxScriptSize < l.size := Nat.not_le.mp fun hl => h ⟨hu, hl⟩
    refine ⟨l.size, fun m => ?_⟩
    rw [verify, checkSize, checkSize, if_neg (Nat.not_lt.mpr hu), if_pos hl]
    rfl
  · refine ⟨u.size, fun m => ?_⟩
    rw [verify, checkSize, if_pos (Nat.not_le.mp hu)]
    rfl

/-- A verification answers as on a new machine. When both scripts are within the limit on their size it
leaves the same stack, and otherwise it changes nothing. What was traced before stays. -/
theorem verify_fresh (u l : Script) (m : Machine) :
    (c.verify u l).answer m = (c.verify u l).answer {} ∧
    (if u.size ≤ c.limits.maxScriptSize ∧ l.size ≤ c.limits.maxScriptSize then
      ((c.verify u l).after m).stack = ((c.verify u l).after {}).stack
    else
      (∃ k, (c.verify u l).answer m = .error (.error (.scriptSize k c.limits.maxScriptSize))) ∧
        (c.verify u l).after m = m) ∧
    ∃ steps, ((c.verify u l).after m).trace = m.trace.map (steps ++ ·) := by
  by_cases h : u.size ≤ c.limits.maxScriptSize ∧ l.size ≤ c.limits.maxScriptSize
  · rw [if_pos h]
    have hrepeats : Repeats (fun _ _ => True) (c.verify u l) := verify_repeats c h.1 h.2
    obtain ⟨ha, hs⟩ := hrepeats.same m {} trivial
    exact ⟨ha, congrArg EvalState.stack hs, hrepeats.trace m⟩
  · rw [if_neg h]
    obtain ⟨k, hk⟩ := verify_oversized c h
    have ha (n : Machine) :
        (c.verify u l).answer n = .error (.error (.scriptSize k c.limits.maxScriptSize)) := by
      rw [EvalM.answer, hk]
    have hm : (c.verify u l).after m = m := by rw [EvalM.after, hk]
    exact ⟨(ha m).trans (ha {}).symm, ⟨⟨k, ha m⟩, hm⟩, trace_unchanged (congrArg Machine.trace hm)⟩

end

/-- A script above the limit on its size leaves the item that an earlier run has pushed. -/
theorem verify_oversized_leaves_stack :
    let c : Evaluator := { limits := { maxScriptSize := 2 } }
    let m : Machine := { stack := [[1]], stepCount := 1 }
    @execute Crypto.bitcoin c ⟨[0x51]⟩ {} = .ok () m ∧
      ((@verify Crypto.bitcoin c ⟨[0x51, 0x51, 0x51]⟩ ⟨[0x51]⟩).after m).stack = [[1]] ∧
      ((@verify Crypto.bitcoin c ⟨[0x51, 0x51, 0x51]⟩ ⟨[0x51]⟩).after {}).stack = [] := by
  intro c m
  exact ⟨by with_unfolding_all rfl, rfl, rfl⟩

end Evaluator

end BitcoinTx
