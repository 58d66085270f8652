import BitcoinTx.Crypto
import BitcoinTx.Eval.Limits
import BitcoinTx.Eval.Stack

/-! The state of an evaluation, and what the evaluator is given from outside. -/

namespace BitcoinTx

inductive Condition where
  | active
  | inactive
  /-- Opened inside a branch that does not run. -/
  | skipped
deriving DecidableEq, Repr

def Condition.flip : Condition → Condition
  | active => inactive
  | inactive => active
  | skipped => skipped

/-- An instruction that has run, with the stack it left and what was still to come. -/
structure TraceStep where
  step : Nat
  opcode : Opcode
  stack : Stack
  remaining : List Instruction
deriving DecidableEq

structure Machine where
  stack : Stack := []
  /-- The open conditionals, innermost first. -/
  conditions : List Condition := []
  opCount : Nat := 0
  program : List Instruction := []
  stepCount : Nat := 0
  /-- The steps recorded so far, latest first, once tracing is on. -/
  trace : Option (List TraceStep) := none
deriving DecidableEq

namespace Machine

def executing (m : Machine) : Bool :=
  match m.conditions with
  | [] | .active :: _ => true
  | _ => false

/-- Clears the program and the stacks; what was traced stays. -/
def reset (m : Machine) : Machine :=
  { m with stack := [], conditions := [], opCount := 0, program := [] }

def enableTrace (m : Machine) : Machine := { m with trace := some (m.trace.getD []) }

def steps (m : Machine) : List TraceStep := (m.trace.getD []).reverse

end Machine

/-- The limits, and how signatures are hashed and checked: the hash for a hash type, and whether a
DER signature over a hash is that of a serialized key. -/
structure Evaluator where
  limits : Limits := {}
  hasher : Option (UInt32 → Except EvalError Hash256) := none
  verifier : Option (Hash256 → Bytes → Bytes → Bool) := none

abbrev EvalM := EStateM Stop Machine

section

variable {α : Type}

abbrev fail (e : EvalError) : EvalM α := throw (.error e)

abbrev ofResult (x : Except EvalError α) : EvalM α := ofExcept (x.mapError .error)

def onStack (x : StackM α) : EvalM α := fun m =>
  match x m.stack with
  | .ok a s => .ok a { m with stack := s }
  | .error e s => .error (.error e) { m with stack := s }

end

end BitcoinTx
