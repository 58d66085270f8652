import BitcoinTx.Script.Opcode
import BitcoinTx.Text.Hex

/-! Instructions: an opcode with its operand. A script is split into instructions and put together
again without loss. -/

namespace BitcoinTx

structure Instruction where
  opcode : Opcode
  data : Option Bytes
deriving DecidableEq

/-- An operand that runs past the end of the script. -/
structure MalformedPush where
  offset : Nat
  opcode : Opcode
  needed : Nat
  remaining : Nat
deriving DecidableEq

def MalformedPush.message (e : MalformedPush) : String :=
  "malformed push at offset " ++ toString e.offset ++ ": opcode " ++ e.opcode.name ++ " needs "
    ++ toString e.needed ++ " bytes, " ++ toString e.remaining ++ " left"

namespace Instruction

def op (o : Opcode) : Instruction := ⟨o, none⟩

def content (i : Instruction) : Bytes := i.data.getD []

def IsPush (i : Instruction) : Prop := i.opcode.IsPush

instance (i : Instruction) : Decidable i.IsPush := inferInstanceAs (Decidable i.opcode.IsPush)

def encode (i : Instruction) : Bytes :=
  i.opcode :: i.opcode.lengthBytes i.content.length ++ i.content

def encodeAll (l : List Instruction) : Bytes := l.flatMap encode

def size (i : Instruction) : Nat := i.encode.length

def disassemble (i : Instruction) : String :=
  match i.data with
  | some data => i.opcode.name ++ " " ++ Hex.encode data
  | none => i.opcode.name

def disassembleAll (l : List Instruction) : String := " ".intercalate (l.map disassemble)

/-- The operand alone for a push of data, else the name. -/
def asm (i : Instruction) : String :=
  match i.data with
  | some data => if i.opcode.IsDataPush then Hex.encode data else i.opcode.name
  | none => i.opcode.name

/-- The next `n` bytes and what follows, or how many there are. -/
def splitData (n : Nat) (b : Bytes) : Except (Nat × Nat) (Option Bytes × Bytes) :=
  let data := b.take n
  if data.length < n then .error (n, b.length) else .ok (some data, b.drop n)

/-- Splits `b` behind the operand of `op`; fails with the bytes needed and the bytes left. -/
def splitOperand (op : Opcode) (b : Bytes) : Except (Nat × Nat) (Option Bytes × Bytes) :=
  match op.operand with
  | .none => .ok (none, b)
  | .fixed n => splitData n b
  | .sized w =>
    match splitData w b with
    | .error e => .error e
    | .ok (_, rest) => splitData (leValue (b.take w)) rest

theorem length_of_splitData {n : Nat} {b : Bytes} {r : Option Bytes × Bytes}
    (h : splitData n b = .ok r) : r.2.length ≤ b.length := by
  simp only [splitData] at h
  split at h
  · contradiction
  · cases h
    simp

theorem length_of_splitOperand {op : Opcode} {b : Bytes} {r : Option Bytes × Bytes}
    (h : splitOperand op b = .ok r) : r.2.length ≤ b.length := by
  simp only [splitOperand] at h
  split at h
  · cases h
    exact Nat.le_refl _
  · exact length_of_splitData h
  · split at h
    · contradiction
    · next h' => exact Nat.le_trans (length_of_splitData h) (length_of_splitData h')

/-- The instructions of `b`, which stands at `offset` of the script. -/
def decodeFrom (offset : Nat) : Bytes → Except MalformedPush (List Instruction)
  | [] => .ok []
  | op :: b =>
    match h : splitOperand op b with
    | .error (needed, remaining) => .error ⟨offset, op, needed, remaining⟩
    | .ok (data, rest) =>
      have : rest.length ≤ b.length := length_of_splitOperand h
      let i : Instruction := ⟨op, data⟩
      match decodeFrom (offset + i.size) rest with
      | .error e => .error e
      | .ok l => .ok (i :: l)
termination_by b => b.length

def decode (b : Bytes) : Except MalformedPush (List Instruction) := decodeFrom 0 b

end Instruction

end BitcoinTx
