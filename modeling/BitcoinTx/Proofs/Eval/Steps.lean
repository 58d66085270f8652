import BitcoinTx.Proofs.Eval.Runs

/-! What single instructions do to the stack, where the branch they stand in runs. -/

namespace BitcoinTx

open Outcome

def Instruction.cost (i : Instruction) : Nat := if Opcode.sixteen < i.opcode then 1 else 0

def Machine.entering (m : Machine) (i : Instruction) (rest : List Instruction) : Machine :=
  { m with program := rest, opCount := m.opCount + i.cost }

namespace Evaluator

section

variable {c : Evaluator} {i : Instruction} {m n : Machine} {x : Unit}

lemma countOps_ok {k : Nat} : c.countOps k m = .ok x n ↔
    m.opCount + k ≤ c.limits.maxOps ∧ { m with opCount := m.opCount + k } = n := by
  rw [countOps, modify_bind_ok, get_bind_ok, unless_ok, pure_ok, Nat.not_lt]
  simp

lemma countInstruction_ok : c.countInstruction i m = .ok x n ↔
    (Opcode.sixteen < i.opcode → m.opCount + 1 ≤ c.limits.maxOps) ∧
      { m with opCount := m.opCount + i.cost } = n := by
  by_cases hi : Opcode.sixteen < i.opcode
  · simp [countInstruction, Instruction.cost, hi, countOps_ok]
  · simp [countInstruction, Instruction.cost, hi, pure_ok]

lemma checkElement_ok : c.checkElement i m = .ok x n ↔
    i.content.length ≤ c.limits.maxElementSize ∧ m = n := by
  rw [checkElement, unless_ok, pure_ok, Nat.not_lt]
  simp

lemma checkDepth_ok : c.checkDepth m = .ok x n ↔
    m.stack.length ≤ c.limits.maxStackSize ∧ m = n := by
  rw [checkDepth, get_bind_ok, unless_ok, pure_ok, Nat.not_lt]
  simp

lemma popNumber_bind_ok {α : Type} {f : Int → EvalM α} {y : α} :
    (c.popNumber >>= f) m = .ok y n ↔
      ∃ b s v, m.stack = b :: s ∧ ScriptNumber.decode b c.limits.maxNumberSize true = .ok v ∧
        f v { m with stack := s } = .ok y n := by
  have hnumber (s t : Stack) (v : Int) : Stack.popNumber c.limits.maxNumberSize s = .ok v t ↔
      ∃ b, s = b :: t ∧ ScriptNumber.decode b c.limits.maxNumberSize true = .ok v := by
    rw [Stack.popNumber, bind_ok]
    simp only [Stack.pop_ok]
    constructor
    · rintro ⟨b, t', rfl, h⟩
      cases hd : ScriptNumber.decode b c.limits.maxNumberSize true with
      | ok w =>
        rw [hd] at h
        obtain ⟨rfl, rfl⟩ := pure_ok.mp h
        exact ⟨b, rfl, hd⟩
      | error e =>
        rw [hd] at h
        exact (throw_ok.mp h).elim
    · rintro ⟨b, rfl, hd⟩
      exact ⟨b, t, rfl, by rw [hd]; rfl⟩
  rw [bind_ok]
  simp only [popNumber, onStack_ok, hnumber]
  constructor
  · rintro ⟨v, _, ⟨s, ⟨b, hs, hv⟩, rfl⟩, h⟩
    exact ⟨b, s, v, hs, hv, h⟩
  · rintro ⟨b, s, v, hs, hv, h⟩
    exact ⟨v, _, ⟨s, ⟨b, hs, hv⟩, rfl⟩, h⟩

lemma requireTrue_ok {e : EvalError} : requireTrue e m = .ok x n ↔
    ∃ b s, m.stack = b :: s ∧ ScriptNumber.isTrue b = true ∧ { m with stack := s } = n := by
  have hbool (s t : Stack) (v : Bool) :
      Stack.popBool s = .ok v t ↔ ∃ b, s = b :: t ∧ ScriptNumber.isTrue b = v := by
    rw [Stack.popBool, map_ok]
    simp only [Stack.pop_ok]
  rw [requireTrue, bind_ok]
  simp only [onStack_ok, hbool, unless_ok, pure_ok]
  constructor
  · rintro ⟨v, _, ⟨s, ⟨b, hs, rfl⟩, rfl⟩, hv, -, rfl⟩
    exact ⟨b, s, hs, by simpa using hv, rfl⟩
  · rintro ⟨b, s, hs, hv, rfl⟩
    exact ⟨_, _, ⟨s, ⟨b, hs, rfl⟩, rfl⟩, by simp [hv], trivial, rfl⟩

lemma conclude_ok {verify v : Bool} {e : EvalError} {t : Stack}
    (hs : m.stack = ScriptNumber.ofBool v :: t) :
    conclude verify e m = .ok x n ↔ (verify = true → v = true) ∧
      { m with stack := if verify then t else ScriptNumber.ofBool v :: t } = n := by
  have htrue : ScriptNumber.isTrue (ScriptNumber.ofBool v) = v := by cases v <;> rfl
  cases verify with
  | false => simp [conclude, pure_ok, ← hs]
  | true =>
    simp only [conclude, if_true, requireTrue_ok, hs, List.cons.injEq, forall_const]
    constructor
    · rintro ⟨_, _, ⟨rfl, rfl⟩, hv, rfl⟩
      exact ⟨htrue ▸ hv, rfl⟩
    · rintro ⟨hv, rfl⟩
      exact ⟨_, t, ⟨rfl, rfl⟩, htrue.trans hv, rfl⟩

lemma pushBool_conclude_ok {verify v : Bool} {e : EvalError} :
    (onStack (Stack.pushBool v) >>= fun _ => conclude verify e) m = .ok x n ↔
      (verify = true → v = true) ∧
        { m with stack := if verify then m.stack else ScriptNumber.ofBool v :: m.stack } = n := by
  have hpush : onStack (Stack.pushBool v) m =
      .ok () { m with stack := ScriptNumber.ofBool v :: m.stack } := rfl
  rw [seq_ok, hpush]
  simp only [EStateM.Result.ok.injEq, true_and, exists_eq_left']
  exact conclude_ok rfl

end

variable [Crypto] {c : Evaluator} {i : Instruction} {a b : EvalState}

lemma performRunning_ok {rest : List Instruction} {m n : Machine} {x : Unit} :
    c.performRunning i rest m = .ok x n ↔
      if m.executing = true ∨ i.opcode.IsConditional then
        ∃ m', c.perform i i.opcode.operation m = .ok () m' ∧ record i rest m' = .ok () n
      else m = n := by
  rw [performRunning, get_bind_ok]
  split
  · exact seq_ok
  · simp [pure_ok]

def Performs (c : Evaluator) (i : Instruction) (a b : EvalState) : Prop :=
  ∃ m, c.perform i i.opcode.operation a.machine = .ok () m ∧ m.state = b

lemma runOne_ok {rest : List Instruction} {m n : Machine} {x : Unit} :
    c.runOne i rest m = .ok x n ↔
      (Opcode.sixteen < i.opcode → m.opCount + 1 ≤ c.limits.maxOps) ∧
        i.content.length ≤ c.limits.maxElementSize ∧
        (if m.executing = true ∨ i.opcode.IsConditional then
          ∃ m', c.perform i i.opcode.operation (m.entering i rest) = .ok () m' ∧
            record i rest m' = .ok () n
        else m.entering i rest = n) ∧
        n.stack.length ≤ c.limits.maxStackSize := by
  rw [runOne, modify_bind_ok, seq_ok]
  simp only [seq_ok, countInstruction_ok, checkElement_ok, performRunning_ok, checkDepth_ok]
  constructor
  · rintro ⟨_, ⟨hc, rfl⟩, _, ⟨he, rfl⟩, _, hp, hd, rfl⟩
    exact ⟨hc, he, hp, hd⟩
  · rintro ⟨hc, he, hp, hd⟩
    exact ⟨_, ⟨hc, rfl⟩, _, ⟨he, rfl⟩, _, hp, hd, rfl⟩

lemma runs_one : c.Runs [i] a b ↔
    (Opcode.sixteen < i.opcode → a.opCount + 1 ≤ c.limits.maxOps) ∧
      i.content.length ≤ c.limits.maxElementSize ∧
      (if a.machine.executing = true ∨ i.opcode.IsConditional then c.Performs i (a.ahead i.cost) b
        else a.ahead i.cost = b) ∧
      b.stack.length ≤ c.limits.maxStackSize := by
  have hrun : c.Runs [i] a b ↔ ∃ m, c.runOne i [] a.machine = .ok () m ∧ m.state = b := by
    rw [Runs, runAll]
    simp only [seq_ok, runAll, pure_ok, true_and, exists_eq_right]
  have hstart : a.machine.entering i [] = (a.ahead i.cost).machine := rfl
  rw [hrun]
  simp only [runOne_ok, hstart, Performs]
  by_cases hx : a.machine.executing = true ∨ i.opcode.IsConditional
  · simp only [if_pos hx]
    constructor
    · rintro ⟨n, ⟨hc, he, ⟨m, hp, hr⟩, hd⟩, rfl⟩
      obtain rfl := modify_ok.mp hr
      exact ⟨hc, he, ⟨m, hp, rfl⟩, hd⟩
    · rintro ⟨hc, he, ⟨m, hp, rfl⟩, hd⟩
      exact ⟨_, ⟨hc, he, ⟨m, hp, rfl⟩, hd⟩, rfl⟩
  · simp only [if_neg hx]
    constructor
    · rintro ⟨n, ⟨hc, he, rfl, hd⟩, rfl⟩
      exact ⟨hc, he, rfl, hd⟩
    · rintro ⟨hc, he, rfl, hd⟩
      exact ⟨_, ⟨hc, he, rfl, hd⟩, rfl⟩

section

variable {s : Stack} {n : Nat} {l : List Instruction}

lemma runs_unconditional : c.Runs [i] ⟨s, [], n⟩ b ↔
    (Opcode.sixteen < i.opcode → n + 1 ≤ c.limits.maxOps) ∧
      i.content.length ≤ c.limits.maxElementSize ∧ c.Performs i ⟨s, [], n + i.cost⟩ b ∧
      b.stack.length ≤ c.limits.maxStackSize := by
  rw [runs_one, if_pos (.inl rfl)]
  rfl

lemma runs_command {o : Opcode} (ho : Opcode.sixteen < o) :
    c.Runs (.op o :: l) ⟨s, [], n⟩ b ↔ n + 1 ≤ c.limits.maxOps ∧
      ∃ d, c.Performs (.op o) ⟨s, [], n + 1⟩ d ∧ d.stack.length ≤ c.limits.maxStackSize ∧
        c.Runs l d b := by
  have hcost : (Instruction.op o).cost = 1 := if_pos ho
  rw [runs_cons]
  simp only [runs_unconditional, hcost]
  constructor
  · rintro ⟨d, ⟨hn, -, hp, hs⟩, hl⟩
    exact ⟨hn ho, d, hp, hs, hl⟩
  · rintro ⟨hn, d, hp, hs, hl⟩
    exact ⟨d, ⟨fun _ => hn, Nat.zero_le _, hp, hs⟩, hl⟩

end

section

variable {s : Stack} {l : List Condition} {n : Nat}

lemma performs_push (h : i.opcode.operation = .push) :
    c.Performs i ⟨s, l, n⟩ b ↔ ⟨i.content :: s, l, n⟩ = b := by
  rw [Performs, h]
  constructor
  · rintro ⟨m, hm, rfl⟩
    cases hm
    rfl
  · rintro rfl
    exact ⟨_, rfl, rfl⟩

lemma performs_pushNumber {v : Int} (h : i.opcode.operation = .pushNumber v) :
    c.Performs i ⟨s, l, n⟩ b ↔ ⟨ScriptNumber.encode v :: s, l, n⟩ = b := by
  rw [Performs, h]
  constructor
  · rintro ⟨m, hm, rfl⟩
    cases hm
    rfl
  · rintro rfl
    exact ⟨_, rfl, rfl⟩

lemma performs_dup (h : i.opcode.operation = .dup 1) :
    c.Performs i ⟨s, l, n⟩ b ↔ ∃ x t, s = x :: t ∧ ⟨x :: x :: t, l, n⟩ = b := by
  rw [Performs, h]
  constructor
  · rintro ⟨m, hm, rfl⟩
    cases s with
    | nil => cases hm
    | cons x t =>
      cases hm
      exact ⟨x, t, rfl, rfl⟩
  · rintro ⟨x, t, rfl, rfl⟩
    exact ⟨_, rfl, rfl⟩

lemma performs_hash {f : HashFunction} (h : i.opcode.operation = .hash f) :
    c.Performs i ⟨s, l, n⟩ b ↔ ∃ x t, s = x :: t ∧ ⟨f.run x :: t, l, n⟩ = b := by
  rw [Performs, h]
  constructor
  · rintro ⟨m, hm, rfl⟩
    cases s with
    | nil => cases hm
    | cons x t =>
      cases hm
      exact ⟨x, t, rfl, rfl⟩
  · rintro ⟨x, t, rfl, rfl⟩
    exact ⟨_, rfl, rfl⟩

lemma performs_equal {verify : Bool} (h : i.opcode.operation = .equal verify) :
    c.Performs i ⟨s, l, n⟩ b ↔ ∃ x y t, s = x :: y :: t ∧ (verify = true → x = y) ∧
      ⟨if verify then t else ScriptNumber.ofBool (x = y) :: t, l, n⟩ = b := by
  rw [Performs, h]
  simp only [perform, pop_bind_ok, pushBool_conclude_ok, decide_eq_true_eq]
  constructor
  · rintro ⟨m, ⟨x, _, rfl, y, t, rfl, hv, rfl⟩, rfl⟩
    exact ⟨x, y, t, rfl, hv, rfl⟩
  · rintro ⟨x, y, t, rfl, hv, rfl⟩
    exact ⟨_, ⟨x, _, rfl, y, t, rfl, hv, rfl⟩, rfl⟩

lemma performs_checkSig {verify : Bool} (h : i.opcode.operation = .checkSig verify) :
    c.Performs i ⟨s, l, n⟩ b ↔ ∃ key signature t v, s = key :: signature :: t ∧
      c.checkSignature signature key = .ok v ∧ (verify = true → v = true) ∧
      ⟨if verify then t else ScriptNumber.ofBool v :: t, l, n⟩ = b := by
  rw [Performs, h]
  simp only [perform, pop_bind_ok, ofResult_bind_ok, pushBool_conclude_ok]
  constructor
  · rintro ⟨m, ⟨key, _, rfl, signature, t, rfl, v, hv, ht, rfl⟩, rfl⟩
    exact ⟨key, signature, t, v, rfl, hv, ht, rfl⟩
  · rintro ⟨key, signature, t, v, rfl, hv, ht, rfl⟩
    exact ⟨_, ⟨key, _, rfl, signature, t, rfl, v, hv, ht, rfl⟩, rfl⟩

end

end Evaluator

end BitcoinTx
