import BitcoinTx.Eval.Run
import BitcoinTx.Proofs.Eval.Outcome

/-! What a computation does depends on the stack, the conditionals and the count of operations alone. On
a lower count it does the same, and most instructions do the same among other conditionals. -/

namespace BitcoinTx

open Outcome

/-- The part of a machine that decides what instructions do. -/
structure EvalState where
  stack : Stack
  conditions : List Condition
  opCount : Nat

namespace EvalState

def machine (a : EvalState) : Machine :=
  { stack := a.stack, conditions := a.conditions, opCount := a.opCount }

def ahead (a : EvalState) (k : Nat) : EvalState := { a with opCount := a.opCount + k }

end EvalState

def Machine.state (m : Machine) : EvalState := ⟨m.stack, m.conditions, m.opCount⟩

lemma Machine.executing_congr {m n : Machine} (h : n.conditions = m.conditions) :
    n.executing = m.executing := by
  simp only [executing, h]

def Operation.isBranching : Operation → Bool
  | .branch _ | .otherwise | .endBranch => true
  | _ => false

/-- The limits that a run can hit for what it has counted or what its program holds. -/
def Stop.IsLimit : Stop → Prop
  | .error (.tooManyOps _) | .error (.elementSize _ _) => True
  | _ => False

/-- The machine `n` is `k` operations ahead of `m` with the same stack; `ρ` relates the conditionals. -/
structure Ahead (k : Nat) (ρ : List Condition → List Condition → Prop) (m n : Machine) : Prop where
  stack : n.stack = m.stack
  conditions : ρ m.conditions n.conditions
  opCount : n.opCount = m.opCount + k

lemma ahead_eq_iff {k : Nat} {m n : Machine} : Ahead k Eq m n ↔ n.state = m.state.ahead k := by
  rw [Machine.state, Machine.state, EvalState.ahead, EvalState.mk.injEq]
  constructor
  · intro h
    exact ⟨h.stack, h.conditions.symm, h.opCount⟩
  · rintro ⟨hs, hc, hn⟩
    exact ⟨hs, hc.symm, hn⟩

lemma Ahead.refl (m : Machine) : Ahead 0 Eq m m := ⟨rfl, rfl, rfl⟩

section

variable {α β : Type}

/-- From machines that `R` relates, `x` ends as `y` does: with the same result in machines that `S`
relates, or with the same error. Where `y` hits a limit, `x` may do anything. -/
def Simulates (R S : Machine → Machine → Prop) (x y : EvalM α) : Prop :=
  ∀ ⦃m n : Machine⦄, R m n →
    (∃ a m' n', x m = .ok a m' ∧ y n = .ok a n' ∧ S m' n') ∨
      (∃ e m' n', x m = .error e m' ∧ y n = .error e n') ∨
        ∃ e n', y n = .error e n' ∧ e.IsLimit

namespace Simulates

variable {R R' S S' T : Machine → Machine → Prop} {x x' y y' : EvalM α}

lemma ok (h : Simulates R S x y) {m n n' : Machine} {a : α} (hr : R m n) (hy : y n = .ok a n') :
    ∃ m', x m = .ok a m' ∧ S m' n' := by
  obtain ⟨b, m', k, hx, hy', hs⟩ | ⟨e, m', k, -, hy'⟩ | ⟨e, k, hy', -⟩ := h hr
  · rw [hy] at hy'
    cases hy'
    exact ⟨m', hx, hs⟩
  · rw [hy] at hy'
    cases hy'
  · rw [hy] at hy'
    cases hy'

lemma mono (h : Simulates R S x y) (hr : ∀ m n, R' m n → R m n) (hs : ∀ m n, S m n → S' m n) :
    Simulates R' S' x y := by
  intro m n hm
  obtain ⟨a, m', n', hx, hy, h⟩ | h := h (hr m n hm)
  · exact .inl ⟨a, m', n', hx, hy, hs m' n' h⟩
  · exact .inr h

lemma trans {z : EvalM α} (h : Simulates R S x y) (h' : Simulates R' S' y z)
    (hr : ∀ m n, R m n → R' n n) (hs : ∀ m n k, S m n → S' n k → S m k) : Simulates R S x z := by
  intro m n hm
  obtain ⟨a, k, k', hy, hz, hk⟩ | ⟨e, k, k', hy, hz⟩ | hz := h' (hr m n hm)
  · obtain ⟨m', hx, hs'⟩ := h.ok hm hy
    exact .inl ⟨a, m', k', hx, hz, hs m' k k' hs' hk⟩
  · obtain ⟨b, m', l, -, hy', -⟩ | ⟨e', m', l, hx, hy'⟩ | ⟨e', l, hy', he⟩ := h hm
    · rw [hy] at hy'
      cases hy'
    · rw [hy] at hy'
      cases hy'
      exact .inr (.inl ⟨e, m', k', hx, hz⟩)
    · rw [hy] at hy'
      cases hy'
      exact .inr (.inr ⟨e, k', hz, he⟩)
  · exact .inr (.inr hz)

lemma pure (a : α) : Simulates R R (pure a) (pure a) :=
  fun m n hr => .inl ⟨a, m, n, rfl, rfl, hr⟩

lemma throw (e : Stop) : Simulates R S (throw e : EvalM α) (throw e) :=
  fun m n _ => .inr (.inl ⟨e, m, n, rfl, rfl⟩)

lemma throw_limit {e : Stop} (he : e.IsLimit) : Simulates R S x (MonadExcept.throw e) :=
  fun _ n _ => .inr (.inr ⟨e, n, rfl, he⟩)

lemma throw_bind (e : Stop) (f g : α → EvalM β) :
    Simulates R S (MonadExcept.throw e >>= f) (MonadExcept.throw e >>= g) :=
  fun m n _ => .inr (.inl ⟨e, m, n, rfl, rfl⟩)

lemma bind {f g : α → EvalM β} (hx : Simulates R S x y) (hf : ∀ a, Simulates S T (f a) (g a)) :
    Simulates R T (x >>= f) (y >>= g) := by
  intro m n hr
  obtain ⟨a, m', n', hx, hy, hs⟩ | ⟨e, m', n', hx, hy⟩ | ⟨e, n', hy, he⟩ := hx hr
  · obtain ⟨b, m'', n'', hf, hg, ht⟩ | ⟨e, m'', n'', hf, hg⟩ | ⟨e, n'', hg, he⟩ := hf a hs
    · exact .inl ⟨b, m'', n'', bind_ok.mpr ⟨a, m', hx, hf⟩, bind_ok.mpr ⟨a, n', hy, hg⟩, ht⟩
    · exact .inr (.inl ⟨e, m'', n'', bind_error.mpr (.inr ⟨a, m', hx, hf⟩),
        bind_error.mpr (.inr ⟨a, n', hy, hg⟩)⟩)
    · exact .inr (.inr ⟨e, n'', bind_error.mpr (.inr ⟨a, n', hy, hg⟩), he⟩)
  · exact .inr (.inl ⟨e, m', n', bind_error.mpr (.inl hx), bind_error.mpr (.inl hy)⟩)
  · exact .inr (.inr ⟨e, n', bind_error.mpr (.inl hy), he⟩)

lemma after {y : EvalM Unit} {z : EvalM β} {g : Unit → EvalM β} (hy : Simulates R S (Pure.pure ()) y)
    (hg : Simulates S T z (g ())) : Simulates R T z (y >>= g) := by
  simpa using hy.bind (f := fun _ => z) fun _ => hg

lemma before {x y : EvalM Unit} {g : Unit → EvalM Unit} (hx : Simulates R S x y)
    (hg : Simulates S T (Pure.pure ()) (g ())) : Simulates R T x (y >>= g) := by
  simpa using hx.bind (f := Pure.pure) fun _ => hg

lemma get_bind {f g : Machine → EvalM β} (hf : ∀ m n, R m n → Simulates R S (f m) (g n)) :
    Simulates R S (get >>= f) (get >>= g) :=
  fun m n hr => hf m n hr hr

lemma get_after {z : EvalM β} {g : Machine → EvalM β} (hg : ∀ n, Simulates R S z (g n)) :
    Simulates R S z (get >>= g) :=
  fun _ n hr => hg n hr

lemma modify_alone {f : Machine → Machine} (hf : ∀ m n, R m n → S m (f n)) :
    Simulates R S (Pure.pure ()) (modify f) :=
  fun m n h => .inl ⟨(), m, f n, rfl, rfl, hf m n h⟩

lemma modify {f g : Machine → Machine} (hf : ∀ m n, R m n → S (f m) (g n)) :
    Simulates R S (modify f) (modify g) :=
  fun m n hr => .inl ⟨(), f m, g n, rfl, rfl, hf m n hr⟩

lemma ofExcept (x : Except Stop α) : Simulates R R (ofExcept x) (ofExcept x) := by
  cases x with
  | ok a => exact .pure a
  | error e => exact .throw e

lemma discard (h : Simulates R S x y) : Simulates R S (discard x) (discard y) :=
  h.bind fun _ _ _ hs => .inl ⟨(), _, _, rfl, rfl, hs⟩

lemma ite {p : Prop} [Decidable p] (h : Simulates R S x y) (h' : Simulates R S x' y') :
    Simulates R S (if p then x else x') (if p then y else y') := by
  split
  · exact h
  · exact h'

end Simulates

end

section

variable {α : Type} {k : Nat} {ρ ρ' : List Condition → List Condition → Prop}

lemma Simulates.onStack (x : StackM α) :
    Simulates (Ahead k ρ) (Ahead k ρ) (onStack x) (onStack x) := by
  intro m n h
  cases hx : x m.stack with
  | ok a s =>
    refine .inl ⟨a, { m with stack := s }, { n with stack := s }, ?_, ?_, rfl, h.conditions, h.opCount⟩
    · exact onStack_ok.mpr ⟨s, hx, rfl⟩
    · exact onStack_ok.mpr ⟨s, h.stack ▸ hx, rfl⟩
  | error e s =>
    refine .inr (.inl ⟨.error e, { m with stack := s }, { n with stack := s }, ?_, ?_⟩)
    · simp only [BitcoinTx.onStack, hx]
    · simp only [BitcoinTx.onStack, h.stack, hx]

end

variable (c : Evaluator) {k : Nat} {ρ ρ' : List Condition → List Condition → Prop}

namespace Evaluator

lemma countOps_simulates (n : Nat) :
    Simulates (Ahead k ρ) (Ahead k ρ) (c.countOps n) (c.countOps n) := by
  refine (Simulates.modify (S := Ahead k ρ) ?_).bind fun _ => Simulates.get_bind ?_
  · intro m n h
    exact ⟨h.stack, h.conditions, by simp only [h.opCount]; omega⟩
  · intro m n h
    by_cases hn : c.limits.maxOps < n.opCount
    · rw [if_pos hn]
      exact .throw_limit trivial
    · have hm : ¬ c.limits.maxOps < m.opCount := by
        rw [h.opCount] at hn
        omega
      rw [if_neg hn, if_neg hm]
      exact .pure _

lemma popNumber_simulates : Simulates (Ahead k ρ) (Ahead k ρ) c.popNumber c.popNumber := .onStack _

lemma pushResult_simulates (v : Int) :
    Simulates (Ahead k ρ) (Ahead k ρ) (pushResult v) (pushResult v) :=
  .ite (.onStack _) (.throw _)

lemma popCondition_simulates : Simulates (Ahead k ρ) (Ahead k ρ) popCondition popCondition := by
  refine (Simulates.onStack _).bind fun b => ?_
  match b with
  | [] => exact .pure _
  | [x] => exact .ite (.pure _) (.throw _)
  | _ :: _ :: _ => exact .throw _

lemma openBranch_simulates (negate : Bool)
    (hx : ∀ m n : Machine, ρ m.conditions n.conditions → n.executing = m.executing)
    (hp : ∀ x u v, ρ u v → ρ' (x :: u) (x :: v)) :
    Simulates (Ahead k ρ) (Ahead k ρ') (openBranch negate) (openBranch negate) := by
  have hpush (x : Condition) :
      Simulates (Ahead k ρ) (Ahead k ρ') (modify fun m => { m with conditions := x :: m.conditions })
        (modify fun m => { m with conditions := x :: m.conditions }) :=
    .modify fun m n h => ⟨h.stack, hp x _ _ h.conditions, h.opCount⟩
  apply Simulates.get_bind
  intro m n h
  rw [hx m n h.conditions]
  apply Simulates.ite
  · exact popCondition_simulates.bind fun _ => (Simulates.pure _).bind hpush
  · exact (Simulates.pure _).bind hpush

lemma changeBranch_simulates (op : Opcode) (f : Condition → List Condition)
    (hf : ∀ u v, ρ u v → u = [] ∧ v = [] ∨
      ∃ x u' v', u = x :: u' ∧ v = x :: v' ∧ ρ' (f x ++ u') (f x ++ v')) :
    Simulates (Ahead k ρ) (Ahead k ρ') (changeBranch op f) (changeBranch op f) := by
  apply Simulates.get_bind
  intro m n h
  obtain ⟨hu, hv⟩ | ⟨x, u, v, hu, hv, hρ⟩ := hf _ _ h.conditions
  · rw [hu, hv]
    exact .throw _
  · rw [hu, hv]
    exact .modify fun _ _ h => ⟨h.stack, hρ, h.opCount⟩

lemma requireTrue_simulates (e : EvalError) :
    Simulates (Ahead k ρ) (Ahead k ρ) (requireTrue e) (requireTrue e) :=
  (Simulates.onStack _).bind fun _ => .ite (.throw _) (.pure _)

lemma conclude_simulates (verify : Bool) (e : EvalError) :
    Simulates (Ahead k ρ) (Ahead k ρ) (conclude verify e) (conclude verify e) :=
  .ite (requireTrue_simulates e) (.pure _)

lemma checkMultiSig_simulates :
    Simulates (Ahead k ρ) (Ahead k ρ) c.checkMultiSig c.checkMultiSig := by
  apply (popNumber_simulates c).bind
  intro n
  have hsignatures (keys : List Bytes) (m : Int) :
      Simulates (Ahead k ρ) (Ahead k ρ) (do
        let signatures ← onStack (Stack.popMany m.toNat)
        discard (onStack Stack.pop)
        onStack (Stack.pushBool (← ofResult (matchSignatures c signatures keys)))) (do
        let signatures ← onStack (Stack.popMany m.toNat)
        discard (onStack Stack.pop)
        onStack (Stack.pushBool (← ofResult (matchSignatures c signatures keys)))) :=
    (Simulates.onStack _).bind fun _ => (Simulates.onStack _).discard.bind fun _ =>
      (Simulates.ofExcept _).bind fun _ => .onStack _
  apply Simulates.ite
  · exact .throw_bind _ _ _
  · refine (countOps_simulates c _).bind fun _ => (Simulates.onStack _).bind fun keys =>
      (popNumber_simulates c).bind fun m => ?_
    exact .ite (.throw_bind _ _ _) (hsignatures keys m)

lemma perform_simulates [Crypto] (i : Instruction) (o : Operation) (ho : o.isBranching = false) :
    Simulates (Ahead k ρ) (Ahead k ρ) (c.perform i o) (c.perform i o) := by
  have hpop := popNumber_simulates (k := k) (ρ := ρ) c
  cases o with
  | push => exact .onStack (Stack.push i.content)
  | pushNumber v => exact .onStack (Stack.pushNumber v)
  | dup | drop | copySecond | swap | size | hash => exact .onStack _
  | nop => exact .pure _
  | branch | otherwise | endBranch => cases ho
  | verify => exact requireTrue_simulates _
  | ret | reserved | unsupported => exact .throw _
  | nip => exact (Simulates.onStack _).discard
  | depth =>
    apply Simulates.get_bind
    intro m n h
    rw [h.stack]
    exact .onStack _
  | equal verify =>
    exact (Simulates.onStack _).bind fun _ => (Simulates.onStack _).bind fun _ =>
      (Simulates.onStack _).bind fun _ => conclude_simulates _ _
  | increment | decrement => exact hpop.bind fun _ => pushResult_simulates _
  | add | subtract => exact hpop.bind fun _ => hpop.bind fun _ => pushResult_simulates _
  | numEqual verify =>
    exact hpop.bind fun _ => hpop.bind fun _ =>
      (Simulates.onStack _).bind fun _ => conclude_simulates _ _
  | checkSig verify =>
    exact (Simulates.onStack _).bind fun _ => (Simulates.onStack _).bind fun _ =>
      (Simulates.ofExcept _).bind fun _ => (Simulates.onStack _).bind fun _ => conclude_simulates _ _
  | checkMultiSig verify =>
    exact (checkMultiSig_simulates c).bind fun _ => conclude_simulates _ _

lemma countInstruction_simulates (i : Instruction) :
    Simulates (Ahead k ρ) (Ahead k ρ) (c.countInstruction i) (c.countInstruction i) :=
  .ite (countOps_simulates c 1) (.pure _)

lemma checkElement_simulates (i : Instruction) :
    Simulates (Ahead k ρ) (Ahead k ρ) (c.checkElement i) (c.checkElement i) :=
  .ite (.throw _) (.pure _)

lemma checkDepth_simulates : Simulates (Ahead k ρ) (Ahead k ρ) c.checkDepth c.checkDepth := by
  apply Simulates.get_bind
  intro m n h
  rw [h.stack]
  exact .ite (.throw _) (.pure _)

lemma record_simulates (i : Instruction) (rest rest' : List Instruction) :
    Simulates (Ahead k ρ) (Ahead k ρ) (record i rest) (record i rest') :=
  .modify fun _ _ h => ⟨h.stack, h.conditions, h.opCount⟩

lemma runOne_simulates [Crypto] (i : Instruction) (rest rest' : List Instruction)
    (hx : ∀ m n : Machine, ρ m.conditions n.conditions → n.executing = m.executing)
    (hp : Simulates (Ahead k ρ) (Ahead k ρ') (c.perform i i.opcode.operation)
      (c.perform i i.opcode.operation))
    (hρ : ¬ i.opcode.IsConditional → ∀ u v, ρ u v → ρ' u v) :
    Simulates (Ahead k ρ) (Ahead k ρ') (c.runOne i rest) (c.runOne i rest') := by
  have hrunning : Simulates (Ahead k ρ) (Ahead k ρ') (c.performRunning i rest)
      (c.performRunning i rest') := by
    apply Simulates.get_bind
    intro m n h
    rw [hx m n h.conditions]
    by_cases hi : m.executing = true ∨ i.opcode.IsConditional
    · rw [if_pos hi, if_pos hi]
      exact hp.bind fun _ => record_simulates i rest rest'
    · rw [if_neg hi, if_neg hi]
      have hρ := hρ (not_or.mp hi).2
      exact (Simulates.pure _).mono (fun _ _ h => h) fun _ _ h => ⟨h.stack, hρ _ _ h.conditions, h.opCount⟩
  refine (Simulates.modify (S := Ahead k ρ) ?_).bind fun _ => ?_
  · exact fun _ _ h => ⟨h.stack, h.conditions, h.opCount⟩
  · exact (countInstruction_simulates c i).bind fun _ => (checkElement_simulates c i).bind fun _ =>
      hrunning.bind fun _ => checkDepth_simulates c

lemma runOne_simulates_eq [Crypto] (i : Instruction) (rest rest' : List Instruction) :
    Simulates (Ahead k Eq) (Ahead k Eq) (c.runOne i rest) (c.runOne i rest') := by
  have hx (m n : Machine) (h : m.conditions = n.conditions) : n.executing = m.executing :=
    Machine.executing_congr h.symm
  have hchange (f : Condition → List Condition) (u v : List Condition) (h : u = v) :
      u = [] ∧ v = [] ∨ ∃ x u' v', u = x :: u' ∧ v = x :: v' ∧ f x ++ u' = f x ++ v' := by
    cases h
    cases u with
    | nil => exact .inl ⟨rfl, rfl⟩
    | cons x u => exact .inr ⟨x, u, u, rfl, rfl, rfl⟩
  apply runOne_simulates c i rest rest' hx
  · cases ho : i.opcode.operation with
    | branch negate => exact openBranch_simulates negate hx fun _ _ _ => congrArg _
    | otherwise => exact changeBranch_simulates _ _ (hchange fun x => [x.flip])
    | endBranch => exact changeBranch_simulates _ _ (hchange fun _ => [])
    | _ => exact perform_simulates c i _ rfl
  · exact fun _ _ _ h => h

end Evaluator

end BitcoinTx
