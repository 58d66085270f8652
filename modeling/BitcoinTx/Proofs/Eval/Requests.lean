import BitcoinTx.Eval.Run
import BitcoinTx.Proofs.Eval.Bounds

/-! The limits hold at every step of every script, whatever an evaluator was asked before. -/

namespace BitcoinTx.Evaluator

open Outcome

inductive Request where
  | execute (s : Script)
  | verify (unlocking locking : Script)
  | reset
  | enableTrace
  | step

section

variable [Crypto] (c : Evaluator)

def Request.run : Request → EvalM Unit
  | execute s => c.execute s
  | verify unlocking locking => c.verify unlocking locking
  | reset => modify Machine.reset
  | enableTrace => modify Machine.enableTrace
  | step => discard c.step

/-- The machines that requests lead to, whether these succeed or fail. -/
inductive Reached : Machine → Prop
  | new : Reached {}
  | request {m : Machine} (h : Reached m) (r : Request) : Reached ((r.run c).after m)

/-- The machines from which a request on `m` runs a program: the one script that is executed, or the
unlocking script alone, both scripts together, and the script that the unlocking script leaves. A step on
its own goes on where `m` stands. -/
inductive Starts (m : Machine) : Request → Machine → Prop
  | execute {s : Script} {p : List Instruction} (hp : s.instructions = .ok p) :
      Starts m (.execute s) { m with program := p, opCount := 0 }
  | alone {u l : Script} {p : List Instruction} (hp : u.instructions = .ok p) :
      Starts m (.verify u l) { m.reset with program := p }
  | together {u l : Script} {p q : List Instruction} {k : Machine} (hp : u.instructions = .ok p)
      (hq : l.instructions = .ok q) (hk : c.run p false m.reset = .ok () k) :
      Starts m (.verify u l) { k.reset with program := p ++ q }
  | redeem {u l : Script} {p q t : List Instruction} {k k' : Machine} {r : Bytes} {s : Stack}
      (hp : u.instructions = .ok p) (hq : l.instructions = .ok q)
      (hk : c.run p false m.reset = .ok () k) (hk' : c.run (p ++ q) true k.reset = .ok () k')
      (hs : k.stack = r :: s) (ht : Script.instructions ⟨r⟩ = .ok t) :
      Starts m (.verify u l) { k'.reset with stack := s, program := t }
  | step : Starts m .step m

def ItemsWithin (m : Machine) : Prop := m.stack.Within c.maxItem

/-- Whether it succeeds or fails, `x` leaves no longer items than there are or a script may push. -/
def Keeps {α : Type} (x : EvalM α) : Prop :=
  Ensures c.ItemsWithin x (fun _ => c.ItemsWithin) c.ItemsWithin

variable {c}

omit [Crypto] in
lemma requireTrueTop_keeps : c.Keeps requireTrueTop := by
  apply Ensures.read
  intro m _
  match m.stack with
  | [] => exact .throw fun _ hm => hm
  | x :: s => exact .ite (.throw fun _ hm => hm) (.skip _)

omit [Crypto] in
lemma checkSize_keeps (s : Script) : c.Keeps (c.checkSize s) :=
  .ite (.throw fun _ hm => hm) (.skip _)

omit [Crypto] in
lemma parse_keeps (s : Script) : c.Keeps (parse s) := .ofExcept (fun _ _ hm => hm) fun _ hm => hm

lemma runAll_respects {ops : Nat} (l : List Instruction) : c.Respects ops (c.runAll l) := by
  induction l with
  | nil => exact .skip ()
  | cons i l ih => exact (runOne_respects i l).bind fun _ => ih

lemma run_keeps (p : List Instruction) (final : Bool) : c.Keeps (c.run p final) := by
  have hstart : Ensures c.ItemsWithin (modify fun m => { m with program := p, opCount := 0 } : EvalM Unit)
      (fun _ => c.Bounded 0) c.ItemsWithin := .modify fun _ hm => ⟨hm, Nat.zero_le _⟩
  apply hstart.bind
  intro _
  apply ((runAll_respects p).mono (fun _ hm => hm) fun _ _ hm => hm.items).bind
  intro _
  apply Ensures.read
  intro m _
  apply Ensures.ite
  · exact .throw_bind fun _ hm => hm
  · exact .ite requireTrueTop_keeps (.skip _)

lemma runRedeem_keeps {s : Stack} (hs : s.Within c.maxItem) : c.Keeps (c.runRedeem s) := by
  have hstart : c.Keeps (modify fun m => { m.reset with stack := s }) := .modify fun _ _ => hs
  apply hstart.bind
  intro _
  apply (Ensures.onStack Stack.pop_yields.confines).bind
  intro r
  exact (checkSize_keeps _).bind fun _ => (parse_keeps _).bind fun t => run_keeps t true

lemma verify_keeps (u l : Script) : c.Keeps (c.verify u l) := by
  have hreset : c.Keeps (modify Machine.reset) := .modify fun _ _ => List.forall_mem_nil _
  apply (checkSize_keeps u).bind
  intro _
  apply (checkSize_keeps l).bind
  intro _
  apply hreset.bind
  intro _
  apply (parse_keeps u).bind
  intro p
  apply (run_keeps p false).bind
  intro _
  apply Ensures.read
  intro m hm
  apply hreset.bind
  intro _
  apply (parse_keeps u).bind
  intro p
  apply (parse_keeps l).bind
  intro q
  apply (run_keeps (p ++ q) true).bind
  intro _
  apply Ensures.read
  intro _ _
  apply Ensures.ite (.skip _)
  exact .ite (.throw_bind fun _ hm => hm) (runRedeem_keeps hm)

lemma step_keeps : c.Keeps c.step := by
  apply Ensures.get_bind
  intro m hm
  match m.program with
  | [] => exact .pure fun _ h => h ▸ hm
  | i :: rest =>
    -- the count is bounded by what `m` holds, since a failed run may have left it above the limit
    have hstart : ∀ n, n = m → c.Bounded m.opCount n := by
      rintro n rfl
      exact ⟨hm, Nat.le_max_right _ _⟩
    apply ((runOne_respects i rest).mono hstart fun _ _ hn => hn.items).bind
    exact fun _ => .skip _

lemma Request.keeps (r : Request) : c.Keeps (r.run c) := by
  cases r with
  | execute s => exact (checkSize_keeps s).bind fun _ => (parse_keeps s).bind fun p => run_keeps p false
  | verify u l => exact verify_keeps u l
  | reset => exact .modify fun _ _ => List.forall_mem_nil _
  | enableTrace => exact .modify fun _ hm => hm
  | step => exact Ensures.discard (Q := fun _ => c.ItemsWithin) step_keeps

lemma Reached.items (h : c.Reached m) : c.ItemsWithin m := by
  induction h with
  | new => exact List.forall_mem_nil _
  | request _ r ih => exact r.keeps.after ih

lemma Starts.bounded {r : Request} {m n : Machine} (h : c.Starts m r n) (hm : c.ItemsWithin m) :
    ∃ ops, c.Bounded ops n ∧ (ops = 0 ∨ r = .step ∧ ops = m.opCount) := by
  cases h with
  | execute hp => exact ⟨0, ⟨hm, Nat.zero_le _⟩, .inl rfl⟩
  | alone hp | together hp hq hk => exact ⟨0, ⟨List.forall_mem_nil _, Nat.zero_le _⟩, .inl rfl⟩
  | @redeem u l p q t k k' b s hp hq hk hk' hs ht =>
    have hreset : c.ItemsWithin m.reset := List.forall_mem_nil _
    have hitems : c.ItemsWithin k := (run_keeps p false).ok hreset hk
    rw [ItemsWithin, hs] at hitems
    exact ⟨0, ⟨(Stack.within_cons.mp hitems).2, Nat.zero_le _⟩, .inl rfl⟩
  | step => exact ⟨m.opCount, ⟨hm, Nat.le_max_right _ _⟩, .inr ⟨rfl, rfl⟩⟩

/-- Whatever was asked before, and whether it failed or not: every step that succeeds leaves the depth of
the stack and the length of the items within the limits, and one that fails the length of the items. So it
is with the count of operations, but for steps on their own: these start from the count that a failed run
has left, and they do not raise it when it is above the limit. -/
theorem Reached.step_within {m start n : Machine} {r : Request} {l : List Instruction}
    (h : c.Reached m) (hr : c.Starts m r start) (hl : c.Advances l start n) (hn : n.program ≠ []) :
    (∀ b k, c.step n = .ok b k →
      k.stack.length ≤ c.limits.maxStackSize ∧
        (∀ x ∈ k.stack, x.length ≤ max c.limits.maxElementSize 32) ∧
        (k.opCount ≤ c.limits.maxOps ∨ r = .step ∧ k.opCount ≤ m.opCount)) ∧
    ∀ e k, c.step n = .error e k → ∀ x ∈ k.stack, x.length ≤ max c.limits.maxElementSize 32 := by
  obtain ⟨ops, hstart, hops⟩ := hr.bounded h.items
  have hbounded : c.Bounded ops n :=
    hl.invariant hstart fun i rest _ _ hk hrun => (runOne_respects i rest).ok hk hrun
  obtain ⟨i, rest, hp⟩ := List.exists_cons_of_ne_nil hn
  constructor
  · intro b k hs
    have hrun := ((step_ok hp).mp hs).1
    have hk : c.Bounded ops k := (runOne_respects i rest).ok hbounded hrun
    refine ⟨(runOne_ok.mp hrun).2.2.2, hk.items, ?_⟩
    have hcount : k.opCount ≤ c.limits.maxOps ∨ k.opCount ≤ ops := by
      have hmax := hk.opCount
      omega
    obtain hcount | hcount := hcount
    · exact .inl hcount
    · obtain rfl | ⟨rfl, rfl⟩ := hops
      · exact .inl (Nat.le_trans hcount (Nat.zero_le _))
      · exact .inr ⟨rfl, hcount⟩
  · intro e k hs
    exact (runOne_respects i rest).error hbounded ((step_error hp).mp hs)

end

/-- The second step of `OP_DROP OP_NOP` on the stack that a script with `OP_RETURN` has left. -/
theorem step_within_after_return :
    let m : Machine := { stack := [[7], [7]], opCount := 2, stepCount := 2 }
    let start : Machine := { m with program := [.op 0x75, .op 0x61], opCount := 0 }
    let n : Machine := { stack := [[7]], opCount := 1, program := [.op 0x61], stepCount := 3 }
    let k : Machine := { stack := [[7]], opCount := 2, stepCount := 4 }
    @Reached Crypto.bitcoin {} m ∧ @Starts Crypto.bitcoin {} m (.execute ⟨[0x75, 0x61]⟩) start ∧
      @Advances Crypto.bitcoin {} [.op 0x75] start n ∧ n.program ≠ [] ∧
      @step Crypto.bitcoin {} n = .ok true k ∧
      k.stack.length ≤ 1000 ∧ (∀ x ∈ k.stack, x.length ≤ 520) ∧ k.opCount ≤ 201 := by
  let _ := Crypto.bitcoin
  intro m start n k
  have hm : Reached {} m := by
    have hafter : (execute {} ⟨[0x01, 0x07, 0x76, 0x6a]⟩).after {} = m := by decide +kernel
    exact hafter ▸ Reached.new.request (.execute ⟨[0x01, 0x07, 0x76, 0x6a]⟩)
  have hstart : Starts {} m (.execute ⟨[0x75, 0x61]⟩) start := .execute (by decide +kernel)
  have hl : Advances {} [.op 0x75] start n := .cons rfl rfl (.nil n)
  have hn : n.program ≠ [] := List.cons_ne_nil _ _
  have hk : step {} n = .ok true k := rfl
  obtain ⟨hdepth, hitems, hcount⟩ := (hm.step_within hstart hl hn).1 true k hk
  exact ⟨hm, hstart, hl, hn, hk, hdepth, hitems, hcount.resolve_right nofun⟩

/-- A run that fails at its first `OP_NOP`, because no operation is allowed, leaves a count that a step on
its own then finds above the limit. -/
theorem step_exceeds_after_failure :
    let c : Evaluator := { limits := { maxOps := 0 } }
    let m : Machine := { opCount := 1, program := [.op 0x51] }
    @execute Crypto.bitcoin c ⟨[0x61, 0x51]⟩ {} = .error (.error (.tooManyOps 0)) m ∧
      @Reached Crypto.bitcoin c m ∧ m.program ≠ [] ∧
      ∃ k, @step Crypto.bitcoin c m = .ok true k ∧ ¬ k.opCount ≤ c.limits.maxOps := by
  let _ := Crypto.bitcoin
  intro c m
  have hfails : execute c ⟨[0x61, 0x51]⟩ {} = .error (.error (.tooManyOps 0)) m := by
    with_unfolding_all rfl
  have hm : Reached c m := by
    have hafter : (execute c ⟨[0x61, 0x51]⟩).after {} = m := by rw [EvalM.after, hfails]
    exact hafter ▸ Reached.new.request (.execute ⟨[0x61, 0x51]⟩)
  exact ⟨hfails, hm, List.cons_ne_nil _ _, _, rfl, by decide⟩

end BitcoinTx.Evaluator
