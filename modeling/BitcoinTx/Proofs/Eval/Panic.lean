import BitcoinTx.Proofs.Eval.Arithmetic
import BitcoinTx.Proofs.Eval.Requests
import BitcoinTx.Transaction.Verification

/-! Evaluation does not panic as long as numbers have at most seven bytes. -/

namespace BitcoinTx

open Outcome

def NeverPanics {α : Type} (x : EvalM α) : Prop := ∀ m n, x m ≠ .error .panic n

namespace NeverPanics

variable {α β : Type} {x y : EvalM α}

lemma pure (a : α) : NeverPanics (pure a) := by
  intro m n h
  cases h

lemma fail (e : EvalError) : NeverPanics (fail e : EvalM α) := by
  intro m n h
  cases h

lemma bind {f : α → EvalM β} (hx : NeverPanics x) (hf : ∀ a, NeverPanics (f a)) :
    NeverPanics (x >>= f) := by
  intro m n h
  obtain h | ⟨a, k, -, h⟩ := bind_error.mp h
  · exact hx m n h
  · exact hf a k n h

lemma fail_bind (e : EvalError) (f : α → EvalM β) : NeverPanics (BitcoinTx.fail e >>= f) := by
  intro m n h
  cases h

lemma get_bind {f : Machine → EvalM β} (hf : ∀ m, NeverPanics (f m)) : NeverPanics (get >>= f) :=
  fun m => hf m m

lemma modify (f : Machine → Machine) : NeverPanics (modify f) := by
  intro m n h
  cases h

lemma onStack (x : StackM α) : NeverPanics (onStack x) := by
  intro m n h
  rw [BitcoinTx.onStack] at h
  cases hx : x m.stack with
  | ok a s =>
    rw [hx] at h
    cases h
  | error e s =>
    rw [hx] at h
    cases h

lemma ofResult (x : Except EvalError α) : NeverPanics (ofResult x) := by
  cases x with
  | ok a => exact pure a
  | error e => exact fail e

lemma discard (h : NeverPanics x) : NeverPanics (discard x) := h.bind fun _ => pure _

lemma ite {p : Prop} [Decidable p] (hx : NeverPanics x) (hy : NeverPanics y) :
    NeverPanics (if p then x else y) := by
  split
  · exact hx
  · exact hy

end NeverPanics

namespace Evaluator

open ScriptNumber

variable {c : Evaluator}

lemma countOps_neverPanics (n : Nat) : NeverPanics (c.countOps n) :=
  (NeverPanics.modify _).bind fun _ => .get_bind fun _ => .ite (.fail _) (.pure _)

-- that a result fits is known only for numbers that were read from the stack
lemma popNumber_bind_neverPanics {α : Type} {f : Int → EvalM α}
    (hf : ∀ x v, decode x c.limits.maxNumberSize true = .ok v → NeverPanics (f v)) :
    NeverPanics (c.popNumber >>= f) := by
  intro m n h
  obtain h | ⟨v, k, hv, h⟩ := bind_error.mp h
  · exact NeverPanics.onStack _ m n h
  · have hpop : (c.popNumber >>= pure) m = .ok v k := by rw [bind_pure, hv]
    obtain ⟨x, s, w, -, hx, hw⟩ := popNumber_bind_ok.mp hpop
    obtain ⟨rfl, -⟩ := pure_ok.mp hw
    exact hf x w hx k n h

lemma pushResult_neverPanics {v : Int} (hv : Fits v) : NeverPanics (pushResult v) := by
  rw [pushResult, if_pos hv]
  exact .onStack _

lemma popCondition_neverPanics : NeverPanics popCondition := by
  apply (NeverPanics.onStack _).bind
  intro b
  match b with
  | [] => exact .pure _
  | [x] => exact .ite (.pure _) (.fail _)
  | _ :: _ :: _ => exact .fail _

lemma openBranch_neverPanics (negate : Bool) : NeverPanics (openBranch negate) := by
  apply NeverPanics.get_bind
  intro m
  apply NeverPanics.ite
  · exact popCondition_neverPanics.bind fun _ => (NeverPanics.pure _).bind fun _ => .modify _
  · exact (NeverPanics.pure _).bind fun _ => .modify _

lemma changeBranch_neverPanics (o : Opcode) (f : Condition → List Condition) :
    NeverPanics (changeBranch o f) := by
  apply NeverPanics.get_bind
  intro m
  match m.conditions with
  | [] => exact .fail _
  | x :: u => exact .modify _

lemma requireTrue_neverPanics (e : EvalError) : NeverPanics (requireTrue e) :=
  (NeverPanics.onStack _).bind fun _ => .ite (.fail _) (.pure _)

lemma conclude_neverPanics (verify : Bool) (e : EvalError) : NeverPanics (conclude verify e) :=
  .ite (requireTrue_neverPanics e) (.pure _)

lemma checkMultiSig_neverPanics : NeverPanics c.checkMultiSig := by
  have hsignatures (keys : List Bytes) (m : Int) : NeverPanics (do
      let signatures ← onStack (Stack.popMany m.toNat)
      discard (onStack Stack.pop)
      onStack (Stack.pushBool (← ofResult (matchSignatures c signatures keys)))) :=
    (NeverPanics.onStack _).bind fun _ => (NeverPanics.onStack _).discard.bind fun _ =>
      (NeverPanics.ofResult _).bind fun _ => .onStack _
  apply (NeverPanics.onStack _).bind
  intro n
  apply NeverPanics.ite
  · exact .fail_bind _ _
  · exact (countOps_neverPanics _).bind fun _ => (NeverPanics.onStack _).bind fun keys =>
      (NeverPanics.onStack _).bind fun m => .ite (.fail_bind _ _) (hsignatures keys m)

variable [Crypto]

lemma perform_neverPanics (hc : c.limits.maxNumberSize < 8) (i : Instruction) (o : Operation) :
    NeverPanics (c.perform i o) := by
  have hpop : NeverPanics c.popNumber := .onStack _
  cases o with
  | push => exact .onStack (Stack.push i.content)
  | pushNumber v => exact .onStack (Stack.pushNumber v)
  | dup | drop | copySecond | swap | size | hash => exact .onStack _
  | nop => exact .pure _
  | branch negate => exact openBranch_neverPanics negate
  | otherwise | endBranch => exact changeBranch_neverPanics _ _
  | verify => exact requireTrue_neverPanics _
  | ret | reserved | unsupported => exact .fail _
  | nip => exact (NeverPanics.onStack _).discard
  | depth => exact .get_bind fun _ => .onStack _
  | equal verify =>
    exact (NeverPanics.onStack _).bind fun _ => (NeverPanics.onStack _).bind fun _ =>
      (NeverPanics.onStack _).bind fun _ => conclude_neverPanics _ _
  | increment =>
    apply popNumber_bind_neverPanics
    exact fun x v hv => pushResult_neverPanics ((Computes.increment (t := []) hv).fits_of_lt hc)
  | decrement =>
    apply popNumber_bind_neverPanics
    exact fun x v hv => pushResult_neverPanics ((Computes.decrement (t := []) hv).fits_of_lt hc)
  | add =>
    apply popNumber_bind_neverPanics
    intro y b hb
    apply popNumber_bind_neverPanics
    exact fun x a ha => pushResult_neverPanics ((Computes.add (t := []) ha hb).fits_of_lt hc)
  | subtract =>
    apply popNumber_bind_neverPanics
    intro y b hb
    apply popNumber_bind_neverPanics
    exact fun x a ha => pushResult_neverPanics ((Computes.subtract (t := []) ha hb).fits_of_lt hc)
  | numEqual verify =>
    exact hpop.bind fun _ => hpop.bind fun _ =>
      (NeverPanics.onStack _).bind fun _ => conclude_neverPanics _ _
  | checkSig verify =>
    exact (NeverPanics.onStack _).bind fun _ => (NeverPanics.onStack _).bind fun _ =>
      (NeverPanics.ofResult _).bind fun _ => (NeverPanics.onStack _).bind fun _ =>
        conclude_neverPanics _ _
  | checkMultiSig verify => exact checkMultiSig_neverPanics.bind fun _ => conclude_neverPanics _ _

lemma runOne_neverPanics (hc : c.limits.maxNumberSize < 8) (i : Instruction) (rest : List Instruction) :
    NeverPanics (c.runOne i rest) := by
  have hcount : NeverPanics (c.countInstruction i) := .ite (countOps_neverPanics 1) (.pure _)
  have helement : NeverPanics (c.checkElement i) := .ite (.fail _) (.pure _)
  have hrunning : NeverPanics (c.performRunning i rest) :=
    .get_bind fun _ => .ite ((perform_neverPanics hc i _).bind fun _ => .modify _) (.pure _)
  have hdepth : NeverPanics c.checkDepth := .get_bind fun _ => .ite (.fail _) (.pure _)
  exact (NeverPanics.modify _).bind fun _ => hcount.bind fun _ => helement.bind fun _ =>
    hrunning.bind fun _ => hdepth

lemma step_neverPanics (hc : c.limits.maxNumberSize < 8) : NeverPanics c.step := by
  apply NeverPanics.get_bind
  intro m
  match m.program with
  | [] => exact .pure _
  | i :: rest => exact (runOne_neverPanics hc i rest).bind fun _ => .pure _

lemma runAll_neverPanics (hc : c.limits.maxNumberSize < 8) (l : List Instruction) :
    NeverPanics (c.runAll l) := by
  induction l with
  | nil => exact .pure _
  | cons i l ih => exact (runOne_neverPanics hc i l).bind fun _ => ih

omit [Crypto] in
lemma checkSize_neverPanics (s : Script) : NeverPanics (c.checkSize s) := .ite (.fail _) (.pure _)

lemma run_neverPanics (hc : c.limits.maxNumberSize < 8) (p : List Instruction) (final : Bool) :
    NeverPanics (c.run p final) := by
  have htop : NeverPanics requireTrueTop := by
    apply NeverPanics.get_bind
    intro m
    match m.stack with
    | [] => exact .fail _
    | x :: s => exact .ite (.fail _) (.pure _)
  apply (NeverPanics.modify _).bind
  intro _
  apply (runAll_neverPanics hc p).bind
  intro _
  exact .get_bind fun _ => .ite (.fail_bind _ _) (.ite htop (.pure _))

lemma runRedeem_neverPanics (hc : c.limits.maxNumberSize < 8) (s : Stack) : NeverPanics (c.runRedeem s) :=
  (NeverPanics.modify _).bind fun _ => (NeverPanics.onStack _).bind fun _ =>
    (checkSize_neverPanics _).bind fun _ => (NeverPanics.ofResult _).bind fun p => run_neverPanics hc p true

lemma verify_neverPanics (hc : c.limits.maxNumberSize < 8) (u l : Script) : NeverPanics (c.verify u l) := by
  have hparse (s : Script) : NeverPanics (parse s) := .ofResult _
  apply (checkSize_neverPanics u).bind
  intro _
  apply (checkSize_neverPanics l).bind
  intro _
  apply (NeverPanics.modify _).bind
  intro _
  apply (hparse u).bind
  intro p
  apply (run_neverPanics hc p false).bind
  intro _
  apply NeverPanics.get_bind
  intro m
  apply (NeverPanics.modify _).bind
  intro _
  apply (hparse u).bind
  intro first
  apply (hparse l).bind
  intro second
  apply (run_neverPanics hc (first ++ second) true).bind
  intro _
  apply NeverPanics.get_bind
  intro n
  exact .ite (.pure _) (.ite (.fail_bind _ _) (runRedeem_neverPanics hc m.stack))

theorem request_neverPanics (hc : c.limits.maxNumberSize < 8) (r : Request) : NeverPanics (r.run c) := by
  cases r with
  | execute s =>
    exact (checkSize_neverPanics s).bind fun _ => (NeverPanics.ofResult _).bind fun p =>
      run_neverPanics hc p false
  | verify u l => exact verify_neverPanics hc u l
  | reset | enableTrace => exact .modify _
  | step => exact (step_neverPanics hc).discard

end Evaluator

/-- The usual limits allow numbers of four bytes, so no input makes its own verification panic. -/
theorem Transaction.verifyInputWith_ne_panic [Crypto] (mid : Midstate) (tx : Transaction)
    (index position : Nat) (outpoint : Outpoint) :
    tx.verifyInputWith mid index ≠ .error (.verification position outpoint .panic) := by
  rw [verifyInputWith, spent, input]
  cases tx.inputs[index]? with
  | none => nofun
  | some i =>
    rw [except_ok_bind, except_ok_bind]
    cases i.spent with
    | none => nofun
    | some s =>
      rw [pure_bind]
      cases unlockingScript s.version i with
      | error e => nofun
      | ok u =>
        have hverify := Evaluator.verify_neverPanics (c := tx.evaluatorWith mid s.version index)
          (show 4 < 8 by decide) u s.finalLocking {}
        intro h
        cases hm : (tx.evaluatorWith mid s.version index).verify u s.finalLocking {} with
        | ok x m =>
          rw [Except.mapError, except_ok_bind, hm] at h
          cases h
        | error e m =>
          rw [Except.mapError, except_ok_bind, hm] at h
          cases h
          exact hverify m hm

end BitcoinTx
