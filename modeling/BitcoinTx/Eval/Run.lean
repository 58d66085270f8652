import BitcoinTx.Eval.Execute
import BitcoinTx.Script.Standard

/-! Running whole scripts, and verifying an unlocking script against a locking script. -/

namespace BitcoinTx.Evaluator

variable [Crypto] (c : Evaluator)

def checkSize (s : Script) : EvalM Unit :=
  if c.limits.maxScriptSize < s.size then fail (.scriptSize s.size c.limits.maxScriptSize)
  else pure ()

def parse (s : Script) : EvalM (List Instruction) := ofResult (s.instructions.mapError .malformed)

def requireTrueTop : EvalM Unit := do
  match (← get).stack with
  | [] => fail .emptyStack
  | x :: _ => if !ScriptNumber.isTrue x then fail .falseResult

/-- Runs a program with a fresh count of operations. It has to close its conditionals and, when it is
`final`, to end with a true top item. -/
def run (program : List Instruction) (final : Bool) : EvalM Unit := do
  modify fun m => { m with program, opCount := 0 }
  runAll c program
  if !(← get).conditions.isEmpty then fail .unclosed
  if final then requireTrueTop

def execute (s : Script) : EvalM Unit := do
  checkSize c s
  run c (← parse s) false

/-- Runs the script that is the top item of `stack` on the items below it. -/
def runRedeem (stack : Stack) : EvalM Unit := do
  modify fun m => { m.reset with stack }
  let redeem : Script := ⟨← onStack Stack.pop⟩
  checkSize c redeem
  run c (← parse redeem) true

/-- Verifies `unlocking` against `locking`. The unlocking script runs alone, then both run as one
program and have to end with a true top item. A locking script that pays to a script hash, or one
that leaves more than one item, has the top item of the first run evaluated as a script as well. -/
def verify (unlocking locking : Script) : EvalM Unit := do
  checkSize c unlocking
  checkSize c locking
  modify Machine.reset
  run c (← parse unlocking) false
  let stack := (← get).stack
  modify Machine.reset
  let first ← parse unlocking
  let second ← parse locking
  run c (first ++ second) true
  if !locking.isP2sh && (← get).stack.length ≤ 1 then pure ()
  else
    if locking.isP2sh && !unlocking.isPushOnly then fail .notPushOnly
    runRedeem c stack

end BitcoinTx.Evaluator
