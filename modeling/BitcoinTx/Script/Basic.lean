import BitcoinTx.Script.Error

/-! Scripts: byte strings read as instructions. -/

namespace BitcoinTx

def Opcode.pushHeader (n : Nat) : Except ScriptError Bytes :=
  match Opcode.forPush? n with
  | some op => .ok (op :: op.lengthBytes n)
  | none => .error (.dataTooBig n)

/-- The push of `data` in the shortest form; empty data is `OP_0`. -/
def Instruction.push (data : Bytes) : Except ScriptError Instruction :=
  if data.isEmpty then .ok (op .zero)
  else
    match Opcode.forPush? data.length with
    | some op => .ok ⟨op, some data⟩
    | none => .error (.dataTooBig data.length)

structure Script where
  bytes : Bytes
deriving DecidableEq

namespace Script

def empty : Script := ⟨[]⟩

def size (s : Script) : Nat := s.bytes.length

def ofHex (text : String) : Except ScriptError Script :=
  match Hex.decode text with
  | .error e => .error (.hex e)
  | .ok b => .ok ⟨b⟩

def toHex (s : Script) : String := Hex.encode s.bytes

def display (s : Script) : String := "Script(" ++ s.toHex ++ ")"

def instructions (s : Script) : Except MalformedPush (List Instruction) := Instruction.decode s.bytes

def ofInstructions (l : List Instruction) : Script := ⟨Instruction.encodeAll l⟩

def isPushOnly (s : Script) : Bool :=
  match s.instructions with
  | .ok l => l.all (·.IsPush)
  | .error _ => false

def isData (s : Script) : Bool := s.bytes.head? = some Opcode.ret

def disassemble (s : Script) : Except MalformedPush String :=
  s.instructions.map Instruction.disassembleAll

def pushData (s : Script) (data : Bytes) : Except ScriptError Script :=
  (Instruction.push data).map fun i => ⟨s.bytes ++ i.encode⟩

def pushHex (s : Script) (text : String) : Except ScriptError Script :=
  match Hex.decode text with
  | .error _ => .error .badPushHex
  | .ok b => s.pushData b

def pushAll (s : Script) (items : List Bytes) : Except ScriptError Script := items.foldlM pushData s

/-- Appends opcodes that carry no data; appends nothing when one of them does. -/
def pushOpcodes (s : Script) (ops : List Opcode) : Except ScriptError Script :=
  match ops.find? (·.IsDataPush) with
  | some op => .error (.bareDataPush op)
  | none => .ok ⟨s.bytes ++ ops⟩

def removeOpcode (s : Script) (op : Opcode) : Except MalformedPush Script :=
  s.instructions.map fun l => ofInstructions (l.filter (·.opcode ≠ op))

end Script

end BitcoinTx
