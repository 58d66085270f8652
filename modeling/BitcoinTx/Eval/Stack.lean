import BitcoinTx.Eval.Number

/-! The data stack, top item first. Operations that fail leave the stack as far as they have changed
it. -/

namespace BitcoinTx

abbrev Stack := List Bytes

abbrev StackM := EStateM EvalError Stack

namespace Stack

def items (s : Stack) : List Bytes := s.reverse

def ofItems (l : List Bytes) : Stack := l.reverse

def text (s : Stack) : String := "[" ++ " ".intercalate (s.items.map Hex.encode) ++ "]"

def push (b : Bytes) : StackM Unit := modify (b :: ·)

def pushNumber (v : Int) : StackM Unit := push (ScriptNumber.encode v)

def pushBool (v : Bool) : StackM Unit := push (ScriptNumber.ofBool v)

def pop : StackM Bytes := do
  match ← get with
  | x :: s => set s; return x
  | [] => throw (.stackIndex 0 0)

def popNumber (max : Nat) : StackM Int := do
  let b ← pop
  match ScriptNumber.decode b max true with
  | .ok v => return v
  | .error e => throw e

def popBool : StackM Bool := ScriptNumber.isTrue <$> pop

def peek (i : Nat) : StackM Bytes := do
  let s ← get
  match s[i]? with
  | some x => return x
  | none => throw (.stackIndex i s.length)

def nip (i : Nat) : StackM Bytes := do
  let x ← peek i
  modify (·.eraseIdx i)
  return x

def dup (n : Nat) : StackM Unit := do
  if n = 0 then throw .dupNothing
  let s ← get
  if s.length < n then throw (.stackIndex (n - 1) s.length)
  set (s.take n ++ s)

def drop (n : Nat) : StackM Unit := do
  let s ← get
  if s.length < n then throw (.dropTooMany n s.length)
  set (List.drop n s)

def swap : StackM Unit := do push (← nip 1)

def copySecond : StackM Unit := do push (← peek 1)

/-- Pops `n` items and gives them in the order in which they were pushed. -/
def popMany : Nat → StackM (List Bytes)
  | 0 => return []
  | n + 1 => do
    let x ← pop
    return (← popMany n) ++ [x]

end Stack

end BitcoinTx
