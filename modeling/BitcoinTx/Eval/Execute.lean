import BitcoinTx.Eval.Machine
import BitcoinTx.Eval.Operation

/-! Running single instructions. -/

namespace BitcoinTx

variable [Crypto]

def HashFunction.run : HashFunction → Bytes → Bytes
  | ripemd160, b => (BitcoinTx.ripemd160 b).val
  | sha256, b => (BitcoinTx.sha256 b).val
  | hash160, b => (BitcoinTx.hash160 b).val
  | sha256d, b => (BitcoinTx.sha256d b).val

namespace Evaluator

variable (c : Evaluator)

def countOps (n : Nat) : EvalM Unit := do
  modify fun m => { m with opCount := m.opCount + n }
  if c.limits.maxOps < (← get).opCount then fail (.tooManyOps c.limits.maxOps)

def popNumber : EvalM Int := onStack (Stack.popNumber c.limits.maxNumberSize)

/-- Pushes a result of 64-bit arithmetic, which panics when it overflows. -/
def pushResult (v : Int) : EvalM Unit :=
  if ScriptNumber.Fits v then onStack (Stack.pushNumber v) else throw .panic

/-- Pops the condition of a branch, which is empty or a single one. -/
def popCondition : EvalM Bool := do
  match ← onStack Stack.pop with
  | [] => return false
  | [x] => if x = 1 then return true else fail (.conditionValue x)
  | b => fail (.conditionSize b.length)

def openBranch (negate : Bool) : EvalM Unit := do
  let condition ←
    if (← get).executing then
      pure (if (← popCondition) = negate then Condition.inactive else .active)
    else pure .skipped
  modify fun m => { m with conditions := condition :: m.conditions }

def changeBranch (op : Opcode) (f : Condition → List Condition) : EvalM Unit := do
  match (← get).conditions with
  | [] => fail (.unmatched op)
  | x :: rest => modify fun m => { m with conditions := f x ++ rest }

def requireTrue (e : EvalError) : EvalM Unit := do
  if !(← onStack Stack.popBool) then fail e

/-- Pushes a result, or fails with `e` when asked to and the result is false. -/
def conclude (verify : Bool) (e : EvalError) : EvalM Unit :=
  if verify then requireTrue e else pure ()

/-- Whether a signature, with its hash type as last byte, is that of the key. -/
def checkSignature (signature key : Bytes) : Except EvalError Bool :=
  match c.hasher, c.verifier with
  | none, _ => .error .missingHasher
  | _, none => .error .missingVerifier
  | some hasher, some verifier =>
    match signature.getLast? with
    | none => .ok false
    | some hashType => do
      let hash ← hasher hashType.toUInt32
      return verifier hash signature.dropLast key

/-- Whether all signatures are those of keys, in the same order. Each key is tried once, and the
search ends when fewer keys than signatures are left. -/
def matchWith {m : Type → Type} [Monad m] (check : Bytes → Bytes → m Bool) :
    List Bytes → List Bytes → m Bool
  | [], _ => return true
  | _ :: _, [] => return false
  | s :: signatures, k :: keys =>
    if keys.length < signatures.length then return false
    else do
      if ← check s k then matchWith check signatures keys
      else matchWith check (s :: signatures) keys

def matchSignatures (signatures keys : List Bytes) : Except EvalError Bool :=
  matchWith (checkSignature c) signatures keys

/-- What a search has found, and the positions of the signatures and keys that it has checked. There is
no outcome when the search has left a list. -/
structure Search where
  outcome : Option (Except EvalError Bool)
  tried : List (Nat × Nat)

def Search.after (s : Search) (i j : Nat) : Search := { s with tried := (i, j) :: s.tried }

/-- The search for the keys of the signatures from position `i` on, with the key at position `j` as the
next one to be tried. -/
def search (signatures keys : List Bytes) (i j : Nat) : Search :=
  if signatures.length ≤ i then ⟨some (.ok true), []⟩
  else if keys.length < j then ⟨none, []⟩
  else if keys.length - j < signatures.length - i then ⟨some (.ok false), []⟩
  else
    match signatures[i]?, keys[j]? with
    | some s, some k =>
      match c.checkSignature s k with
      | .error e => ⟨some (.error e), [(i, j)]⟩
      | .ok true => (search signatures keys (i + 1) (j + 1)).after i j
      | .ok false => (search signatures keys i (j + 1)).after i j
    | _, _ => ⟨none, []⟩
termination_by keys.length - j

def checkMultiSig : EvalM Unit := do
  let n ← popNumber c
  if n < 0 ∨ c.limits.maxMultisigKeys < n then fail (.keyCount n c.limits.maxMultisigKeys)
  countOps c n.toNat
  let keys ← onStack (Stack.popMany n.toNat)
  let m ← popNumber c
  if m < 0 ∨ n < m then fail (.signatureCount m n.toNat)
  let signatures ← onStack (Stack.popMany m.toNat)
  discard (onStack Stack.pop)
  onStack (Stack.pushBool (← ofResult (matchSignatures c signatures keys)))

def perform (i : Instruction) : Operation → EvalM Unit
  | .push => onStack (Stack.push i.content)
  | .pushNumber v => onStack (Stack.pushNumber v)
  | .nop => pure ()
  | .branch negate => openBranch negate
  | .otherwise => changeBranch i.opcode fun x => [x.flip]
  | .endBranch => changeBranch i.opcode fun _ => []
  | .verify => requireTrue .verify
  | .ret => fail .earlyReturn
  | .dup n => onStack (Stack.dup n)
  | .drop n => onStack (Stack.drop n)
  | .nip => discard (onStack (Stack.nip 1))
  | .copySecond => onStack Stack.copySecond
  | .swap => onStack Stack.swap
  | .depth => do onStack (Stack.pushNumber (ScriptNumber.ofLength (← get).stack.length))
  | .size => onStack do Stack.pushNumber (ScriptNumber.ofLength (← Stack.peek 0).length)
  | .equal verify => do
    let a ← onStack Stack.pop
    let b ← onStack Stack.pop
    onStack (Stack.pushBool (a = b))
    conclude verify .equalVerify
  | .increment => do pushResult ((← popNumber c) + 1)
  | .decrement => do pushResult ((← popNumber c) - 1)
  | .add => do
    let b ← popNumber c
    let a ← popNumber c
    pushResult (a + b)
  | .subtract => do
    let b ← popNumber c
    let a ← popNumber c
    pushResult (a - b)
  | .numEqual verify => do
    let b ← popNumber c
    let a ← popNumber c
    onStack (Stack.pushNumber (if a = b then 1 else 0))
    conclude verify .numEqualVerify
  | .hash f => onStack do Stack.push (f.run (← Stack.pop))
  | .checkSig verify => do
    let key ← onStack Stack.pop
    let signature ← onStack Stack.pop
    onStack (Stack.pushBool (← ofResult (checkSignature c signature key)))
    conclude verify .checkSigVerify
  | .checkMultiSig verify => do
    checkMultiSig c
    conclude verify .checkMultiSigVerify
  | .reserved => fail (.reserved i.opcode)
  | .unsupported => fail (.unsupported i.opcode)

def record (i : Instruction) (rest : List Instruction) : EvalM Unit :=
  modify fun m =>
    let step := m.stepCount + 1
    { m with
      stepCount := step
      trace := m.trace.map (⟨step, i.opcode, m.stack, rest⟩ :: ·) }

def countInstruction (i : Instruction) : EvalM Unit :=
  if Opcode.sixteen < i.opcode then countOps c 1 else pure ()

def checkElement (i : Instruction) : EvalM Unit :=
  if c.limits.maxElementSize < i.content.length then
    fail (.elementSize i.content.length c.limits.maxElementSize)
  else pure ()

def performRunning (i : Instruction) (rest : List Instruction) : EvalM Unit := do
  if (← get).executing ∨ i.opcode.IsConditional then
    perform c i i.opcode.operation
    record i rest

def checkDepth : EvalM Unit := do
  let depth := (← get).stack.length
  if c.limits.maxStackSize < depth then fail (.stackSize depth c.limits.maxStackSize)

/-- Runs the instruction `i`, which `rest` follows. Instructions of a branch that does not run still
count and still have to keep the limit on elements. -/
def runOne (i : Instruction) (rest : List Instruction) : EvalM Unit := do
  modify fun m => { m with program := rest }
  countInstruction c i
  checkElement c i
  performRunning c i rest
  checkDepth c

/-- Runs the next instruction; true once none is left. -/
def step : EvalM Bool := do
  match (← get).program with
  | [] => return true
  | i :: rest =>
    runOne c i rest
    return rest.isEmpty

def runAll : List Instruction → EvalM Unit
  | [] => pure ()
  | i :: rest => do
    runOne c i rest
    runAll rest

end Evaluator

end BitcoinTx
