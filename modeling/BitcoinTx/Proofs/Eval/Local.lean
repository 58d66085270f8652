import BitcoinTx.Proofs.Eval.Ending
import BitcoinTx.Proofs.Eval.Steps

/-! Operations see the stack, the conditionals and the count of operations of a machine, and change
nothing else, also when they fail. -/

namespace BitcoinTx

open Outcome

namespace Machine

def withState (k : Machine) (a : EvalState) : Machine :=
  { k with stack := a.stack, conditions := a.conditions, opCount := a.opCount }

@[simp] lemma withState_state (m : Machine) : m.withState m.state = m := rfl

lemma withState_of_state {m n : Machine} (h : m.state = n.state) : n.withState m.state = n := by
  rw [h, withState_state]

end Machine

/-- On a machine with another program and another record, `x` ends in the same way. -/
def IsLocal {α : Type} (x : EvalM α) : Prop :=
  ∀ k m : Machine, x (k.withState m.state) =
    match x m with
    | .ok a n => .ok a (k.withState n.state)
    | .error e n => .error e (k.withState n.state)

namespace IsLocal

variable {α β : Type} {x y : EvalM α}

lemma ok (h : IsLocal x) {m n : Machine} {a : α} (hx : x m = .ok a n) : n = m.withState n.state := by
  have hm := h m m
  rw [Machine.withState_state, hx] at hm
  exact (EStateM.Result.ok.inj hm).2

lemma after_eq (h : IsLocal x) (m : Machine) : x.after m = m.withState (x.after m).state := by
  have hm := h m m
  rw [Machine.withState_state] at hm
  rw [EvalM.after]
  cases hx : x m with
  | ok a n => exact h.ok hx
  | error e n =>
    rw [hx] at hm
    exact (EStateM.Result.error.inj hm).2

lemma pure (a : α) : IsLocal (pure a) := fun _ _ => rfl

lemma throw (e : Stop) : IsLocal (throw e : EvalM α) := fun _ _ => rfl

lemma throw_bind (e : Stop) (f : α → EvalM β) : IsLocal (MonadExcept.throw e >>= f) :=
  fun _ _ => rfl

lemma bind {f : α → EvalM β} (hx : IsLocal x) (hf : ∀ a, IsLocal (f a)) : IsLocal (x >>= f) := by
  intro k m
  have hb (n : Machine) : (x >>= f) n = EStateM.bind x f n := rfl
  rw [hb, hb, EStateM.bind, EStateM.bind, hx k m]
  cases x m with
  | ok a n => exact hf a k n
  | error e n => rfl

lemma get_bind {f : Machine → EvalM β} (hf : ∀ m, IsLocal (f m))
    (hk : ∀ k m : Machine, f (k.withState m.state) = f m) : IsLocal (get >>= f) := by
  intro k m
  change f (k.withState m.state) (k.withState m.state) = _
  rw [hk]
  exact hf m k m

lemma modify {f : Machine → Machine}
    (hf : ∀ k m : Machine, f (k.withState m.state) = k.withState (f m).state) : IsLocal (modify f) :=
  fun k m => congrArg (EStateM.Result.ok PUnit.unit) (hf k m)

lemma onStack (s : StackM α) : IsLocal (onStack s) := by
  intro k m
  have hk : (k.withState m.state).stack = m.stack := rfl
  rw [BitcoinTx.onStack, BitcoinTx.onStack, hk]
  cases s m.stack <;> rfl

lemma ofExcept (x : Except Stop α) : IsLocal (ofExcept x) := by
  cases x with
  | ok a => exact pure a
  | error e => exact throw e

lemma discard (h : IsLocal x) : IsLocal (discard x) := h.bind fun _ => pure _

lemma ite {p : Prop} [Decidable p] (hx : IsLocal x) (hy : IsLocal y) :
    IsLocal (if p then x else y) := by
  split
  · exact hx
  · exact hy

end IsLocal

namespace Evaluator

variable (c : Evaluator)

lemma countOps_local (n : Nat) : IsLocal (c.countOps n) := by
  apply (IsLocal.modify fun _ _ => rfl).bind
  exact fun _ => .get_bind (fun _ => .ite (.throw _) (.pure _)) fun _ _ => rfl

lemma popNumber_local : IsLocal c.popNumber := .onStack _

lemma pushResult_local (v : Int) : IsLocal (pushResult v) := .ite (.onStack _) (.throw _)

lemma popCondition_local : IsLocal popCondition := by
  apply (IsLocal.onStack _).bind
  intro b
  match b with
  | [] => exact .pure _
  | [x] => exact .ite (.pure _) (.throw _)
  | _ :: _ :: _ => exact .throw _

lemma openBranch_local (negate : Bool) : IsLocal (openBranch negate) := by
  have hopen (x : Condition) :
      IsLocal (modify fun m : Machine => { m with conditions := x :: m.conditions }) :=
    .modify fun _ _ => rfl
  apply IsLocal.get_bind
  · intro m
    apply IsLocal.ite
    · exact popCondition_local.bind fun _ => (IsLocal.pure _).bind hopen
    · exact (IsLocal.pure _).bind hopen
  · exact fun _ _ => rfl

lemma changeBranch_local (op : Opcode) (f : Condition → List Condition) :
    IsLocal (changeBranch op f) := by
  apply IsLocal.get_bind
  · intro m
    match m.conditions with
    | [] => exact .throw _
    | x :: u => exact .modify fun _ _ => rfl
  · exact fun _ _ => rfl

lemma requireTrue_local (e : EvalError) : IsLocal (requireTrue e) :=
  (IsLocal.onStack _).bind fun _ => .ite (.throw _) (.pure _)

lemma conclude_local (verify : Bool) (e : EvalError) : IsLocal (conclude verify e) :=
  .ite (requireTrue_local e) (.pure _)

lemma checkMultiSig_local : IsLocal c.checkMultiSig := by
  have hsignatures (keys : List Bytes) (m : Int) : IsLocal (do
      let signatures ← onStack (Stack.popMany m.toNat)
      discard (onStack Stack.pop)
      onStack (Stack.pushBool (← ofResult (matchSignatures c signatures keys)))) :=
    (IsLocal.onStack _).bind fun _ => (IsLocal.onStack _).discard.bind fun _ =>
      (IsLocal.ofExcept _).bind fun _ => .onStack _
  apply (popNumber_local c).bind
  intro n
  apply IsLocal.ite
  · exact .throw_bind _ _
  · exact (countOps_local c _).bind fun _ => (IsLocal.onStack _).bind fun keys =>
      (popNumber_local c).bind fun m => .ite (.throw_bind _ _) (hsignatures keys m)

lemma countInstruction_local (i : Instruction) : IsLocal (c.countInstruction i) :=
  .ite (countOps_local c 1) (.pure _)

lemma checkElement_local (i : Instruction) : IsLocal (c.checkElement i) := .ite (.throw _) (.pure _)

lemma checkDepth_local : IsLocal c.checkDepth :=
  .get_bind (fun _ => .ite (.throw _) (.pure _)) fun _ _ => rfl

variable [Crypto]

lemma perform_local (i : Instruction) (o : Operation) : IsLocal (c.perform i o) := by
  have hpop := popNumber_local c
  cases o with
  | push => exact .onStack (Stack.push i.content)
  | pushNumber v => exact .onStack (Stack.pushNumber v)
  | dup | drop | copySecond | swap | size | hash => exact .onStack _
  | nop => exact .pure _
  | branch negate => exact openBranch_local negate
  | otherwise | endBranch => exact changeBranch_local _ _
  | verify => exact requireTrue_local _
  | ret | reserved | unsupported => exact .throw _
  | nip => exact (IsLocal.onStack _).discard
  | depth => exact .get_bind (fun _ => .onStack _) fun _ _ => rfl
  | equal verify =>
    exact (IsLocal.onStack _).bind fun _ => (IsLocal.onStack _).bind fun _ =>
      (IsLocal.onStack _).bind fun _ => conclude_local _ _
  | increment | decrement => exact hpop.bind fun _ => pushResult_local _
  | add | subtract => exact hpop.bind fun _ => hpop.bind fun _ => pushResult_local _
  | numEqual verify =>
    exact hpop.bind fun _ => hpop.bind fun _ =>
      (IsLocal.onStack _).bind fun _ => conclude_local _ _
  | checkSig verify =>
    exact (IsLocal.onStack _).bind fun _ => (IsLocal.onStack _).bind fun _ =>
      (IsLocal.ofExcept _).bind fun _ => (IsLocal.onStack _).bind fun _ => conclude_local _ _
  | checkMultiSig verify => exact (checkMultiSig_local c).bind fun _ => conclude_local _ _

end Evaluator

end BitcoinTx
