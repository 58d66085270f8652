import BitcoinTx.Proofs.Eval.Simulation

/-! Running programs as a relation between states: programs compose, and a run that starts with more
operations counted does the same when it succeeds. -/

namespace BitcoinTx

open Outcome

def Stack.TopTrue (s : Stack) : Prop := ∃ x t, s = x :: t ∧ ScriptNumber.isTrue x = true

lemma Stack.topTrue_ofBool {v : Bool} {s : Stack} :
    TopTrue (ScriptNumber.ofBool v :: s) ↔ v = true := by
  constructor
  · rintro ⟨x, t, hx, hv⟩
    obtain ⟨rfl, -⟩ := List.cons.inj hx
    cases v with
    | true => rfl
    | false => cases hv
  · rintro rfl
    exact ⟨_, _, rfl, rfl⟩

namespace Evaluator

variable [Crypto] (c : Evaluator)

def Runs (l : List Instruction) (a b : EvalState) : Prop :=
  ∃ m, c.runAll l a.machine = .ok () m ∧ m.state = b

/-- The program `l`, run on the stack `s` with no conditional open and no operation counted, closes its
conditionals and leaves the stack `t`. -/
def Completes (l : List Instruction) (s t : Stack) : Prop :=
  ∃ m, c.run l false { stack := s } = .ok () m ∧ m.stack = t

def Takes (u : Script) (s t : Stack) : Prop := ∃ l, u.instructions = .ok l ∧ c.Completes l s t

variable {c} {l l' : List Instruction} {a b d : EvalState} {k : Nat}

lemma runAll_simulates (l : List Instruction) :
    Simulates (Ahead k Eq) (Ahead k Eq) (c.runAll l) (c.runAll l) := by
  induction l with
  | nil => exact .pure _
  | cons i l ih => exact (runOne_simulates_eq c i l l).bind fun _ => ih

lemma runAll_append_simulates (l l' : List Instruction) :
    Simulates (Ahead 0 Eq) (Ahead 0 Eq) (c.runAll l >>= fun _ => c.runAll l')
      (c.runAll (l ++ l')) := by
  induction l with
  | nil =>
    rw [runAll, pure_bind]
    exact runAll_simulates l'
  | cons i l ih =>
    rw [runAll, bind_assoc]
    exact (runOne_simulates_eq c i l (l ++ l')).bind fun _ => ih

lemma Runs.of_runAll {m m' : Machine} (h : c.runAll l m = .ok () m') :
    c.Runs l m.state m'.state := by
  have hm : Ahead 0 Eq m.state.machine m := ⟨rfl, rfl, rfl⟩
  obtain ⟨n, hn, hs⟩ := (runAll_simulates l).ok hm h
  exact ⟨n, hn, (ahead_eq_iff.mp hs).symm⟩

lemma Runs.runAll {m : Machine} (h : c.Runs l m.state b) :
    ∃ m', c.runAll l m = .ok () m' ∧ m'.state = b := by
  obtain ⟨n, hn, rfl⟩ := h
  have hm : Ahead 0 Eq m m.state.machine := ⟨rfl, rfl, rfl⟩
  obtain ⟨m', hm, hs⟩ := (runAll_simulates l).ok hm hn
  exact ⟨m', hm, (ahead_eq_iff.mp hs).symm⟩

lemma runs_nil : c.Runs [] a b ↔ a = b := by
  constructor
  · rintro ⟨m, hm, rfl⟩
    obtain ⟨-, rfl⟩ := pure_ok.mp hm
    rfl
  · rintro rfl
    exact ⟨a.machine, rfl, rfl⟩

lemma runs_cons {i : Instruction} : c.Runs (i :: l) a d ↔ ∃ b, c.Runs [i] a b ∧ c.Runs l b d := by
  constructor
  · rintro ⟨n, hn, rfl⟩
    obtain ⟨_, m, hi, hl⟩ := bind_ok.mp hn
    obtain ⟨m', hm, hs⟩ := (runOne_simulates_eq c i [] l).ok (Ahead.refl _) hi
    exact ⟨m.state, ⟨m', bind_ok.mpr ⟨(), m', hm, rfl⟩, (ahead_eq_iff.mp hs).symm⟩, .of_runAll hl⟩
  · rintro ⟨_, ⟨m, hm, rfl⟩, hl⟩
    obtain ⟨_, m', hi, hn⟩ := bind_ok.mp hm
    obtain ⟨-, rfl⟩ := pure_ok.mp hn
    obtain ⟨n, hn, hs⟩ := (runOne_simulates_eq c i l []).ok (Ahead.refl _) hi
    rw [show m'.state = n.state from ahead_eq_iff.mp hs] at hl
    obtain ⟨n', hn', rfl⟩ := hl.runAll
    exact ⟨n', bind_ok.mpr ⟨(), n, hn, hn'⟩, rfl⟩

lemma runs_append : c.Runs (l ++ l') a d ↔ ∃ b, c.Runs l a b ∧ c.Runs l' b d := by
  induction l generalizing a with
  | nil => simp [runs_nil]
  | cons i l ih =>
    rw [List.cons_append, runs_cons]
    simp only [ih]
    constructor
    · rintro ⟨b, hi, e, hl, hl'⟩
      exact ⟨e, runs_cons.mpr ⟨b, hi, hl⟩, hl'⟩
    · rintro ⟨e, hl, hl'⟩
      obtain ⟨b, hi, hl⟩ := runs_cons.mp hl
      exact ⟨b, hi, e, hl, hl'⟩

lemma Runs.unique (h : c.Runs l a b) (h' : c.Runs l a d) : b = d := by
  obtain ⟨m, hm, rfl⟩ := h
  obtain ⟨n, hn, rfl⟩ := h'
  rw [hm] at hn
  cases hn
  rfl

lemma Runs.behind (h : c.Runs l (a.ahead k) b) : ∃ b', c.Runs l a b' ∧ b = b'.ahead k := by
  obtain ⟨n, hn, rfl⟩ := h
  have ha : Ahead k Eq a.machine (a.ahead k).machine := ⟨rfl, rfl, rfl⟩
  obtain ⟨m, hm, hs⟩ := (runAll_simulates l).ok ha hn
  exact ⟨m.state, ⟨m, hm, rfl⟩, ahead_eq_iff.mp hs⟩

omit [Crypto] in
lemma requireTrueTop_ok {m m' : Machine} {a : Unit} :
    requireTrueTop m = .ok a m' ↔ m.stack.TopTrue ∧ m = m' := by
  rw [requireTrueTop, get_bind_ok]
  constructor
  · intro h
    cases hs : m.stack with
    | nil => simp [hs, throw_ok] at h
    | cons x t =>
      rw [hs] at h
      obtain ⟨hx, h⟩ := unless_ok.mp h
      exact ⟨⟨x, t, rfl, by simpa using hx⟩, (pure_ok.mp h).2⟩
  · rintro ⟨⟨x, t, hs, hx⟩, rfl⟩
    rw [hs]
    exact unless_ok.mpr ⟨by simp [hx], rfl⟩

lemma run_ok {final : Bool} {m m' : Machine} {x : Unit} :
    c.run l final m = .ok x m' ↔
      c.runAll l { m with program := l, opCount := 0 } = .ok () m' ∧ m'.conditions = [] ∧
        (final = true → m'.stack.TopTrue) := by
  have hfinal (n : Machine) : (if final = true then requireTrueTop else pure ()) n = .ok x m' ↔
      (final = true → n.stack.TopTrue) ∧ n = m' := by
    cases final <;> simp [pure_ok, requireTrueTop_ok]
  rw [run, modify_bind_ok, bind_ok]
  simp only [get_bind_ok, unless_bind_ok, hfinal]
  constructor
  · rintro ⟨_, n, hn, hc, h, rfl⟩
    exact ⟨hn, by simpa using hc, h⟩
  · rintro ⟨hn, hc, h⟩
    exact ⟨(), m', hn, by simp [hc], h, rfl⟩

lemma completes_iff {s t : Stack} :
    c.Completes l s t ↔ ∃ n, c.Runs l ⟨s, [], 0⟩ ⟨t, [], n⟩ := by
  constructor
  · rintro ⟨m, hm, rfl⟩
    obtain ⟨hm, hc, -⟩ := run_ok.mp hm
    have h : c.Runs l ⟨s, [], 0⟩ m.state := .of_runAll hm
    exact ⟨m.opCount, by simpa only [Machine.state, hc] using h⟩
  · rintro ⟨n, h⟩
    obtain ⟨m, hm, hs⟩ := Runs.runAll (m := { stack := s, program := l }) h
    simp only [Machine.state, EvalState.mk.injEq] at hs
    exact ⟨m, run_ok.mpr ⟨hm, hs.2.1, by simp⟩, hs.1⟩

lemma run_ok_iff {final : Bool} {m : Machine} {t : Stack} (hc : m.conditions = []) :
    (∃ m', c.run l final m = .ok () m' ∧ m'.stack = t) ↔
      c.Completes l m.stack t ∧ (final = true → t.TopTrue) := by
  have hs : Machine.state { m with program := l, opCount := 0 } = ⟨m.stack, [], 0⟩ := by
    simp [Machine.state, hc]
  rw [completes_iff]
  constructor
  · rintro ⟨m', hm, rfl⟩
    obtain ⟨hm, hc', ht⟩ := run_ok.mp hm
    have h := Runs.of_runAll hm
    rw [hs] at h
    exact ⟨⟨m'.opCount, by simpa only [Machine.state, hc'] using h⟩, ht⟩
  · rintro ⟨⟨n, h⟩, ht⟩
    rw [← hs] at h
    obtain ⟨m', hm, hs'⟩ := h.runAll
    simp only [Machine.state, EvalState.mk.injEq] at hs'
    obtain ⟨rfl, hc', -⟩ := hs'
    exact ⟨m', run_ok.mpr ⟨hm, hc', ht⟩, rfl⟩

lemma completes_append {s t : Stack} : c.Completes (l ++ l') s t ↔
    ∃ b n, c.Runs l ⟨s, [], 0⟩ b ∧ c.Runs l' b ⟨t, [], n⟩ := by
  rw [completes_iff]
  simp only [runs_append]
  exact exists_comm

/-- What a first program counts and leaves open is nothing to a second one that completes after it. -/
lemma Completes.of_append {s t u : Stack} (h : c.Completes (l ++ l') s u)
    (hl : c.Completes l s t) : c.Completes l' t u := by
  obtain ⟨b, n, hb, h⟩ := completes_append.mp h
  obtain ⟨k, hl⟩ := completes_iff.mp hl
  obtain rfl := hl.unique hb
  -- nothing of the first program is left but its count, which the second can do without
  have hk : EvalState.ahead ⟨t, [], 0⟩ k = ⟨t, [], k⟩ := by simp [EvalState.ahead]
  rw [← hk] at h
  obtain ⟨b, h, hu⟩ := h.behind
  obtain ⟨s', l', n'⟩ := b
  simp only [EvalState.ahead, EvalState.mk.injEq] at hu
  obtain ⟨rfl, rfl, -⟩ := hu
  exact completes_iff.mpr ⟨n', h⟩

end Evaluator

end BitcoinTx
