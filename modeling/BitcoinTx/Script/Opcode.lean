import BitcoinTx.Bytes.Endian

/-! Opcodes: every byte has a name and a rule for the operand that follows it. -/

namespace BitcoinTx

abbrev Opcode := UInt8

inductive Operand where
  | none
  | fixed (size : Nat)
  /-- A length on `width` bytes, and as many bytes as it says. -/
  | sized (width : Nat)
deriving DecidableEq, Repr

namespace Opcode

def zero : Opcode := 0x00
def data20 : Opcode := 0x14
def data32 : Opcode := 0x20
def data75 : Opcode := 0x4b
def pushData1 : Opcode := 0x4c
def pushData2 : Opcode := 0x4d
def pushData4 : Opcode := 0x4e
def minusOne : Opcode := 0x4f
def reserved : Opcode := 0x50
def one : Opcode := 0x51
def sixteen : Opcode := 0x60
def ret : Opcode := 0x6a
def dup : Opcode := 0x76
def equal : Opcode := 0x87
def equalVerify : Opcode := 0x88
def hash160 : Opcode := 0xa9
def codeSeparator : Opcode := 0xab
def checkSig : Opcode := 0xac
def checkMultiSig : Opcode := 0xae

def operand (op : Opcode) : Operand :=
  if 0x01 ≤ op ∧ op ≤ data75 then .fixed op.toNat
  else if op = pushData1 then .sized 1
  else if op = pushData2 then .sized 2
  else if op = pushData4 then .sized 4
  else .none

def mnemonics : List (Opcode × String) :=
  [(0x00, "OP_0"), (0x4c, "OP_PUSHDATA1"), (0x4d, "OP_PUSHDATA2"), (0x4e, "OP_PUSHDATA4"),
   (0x4f, "OP_1NEGATE"), (0x50, "OP_RESERVED"), (0x61, "OP_NOP"), (0x62, "OP_VER"), (0x63, "OP_IF"),
   (0x64, "OP_NOTIF"), (0x65, "OP_VERIF"), (0x66, "OP_VERNOTIF"), (0x67, "OP_ELSE"),
   (0x68, "OP_ENDIF"), (0x69, "OP_VERIFY"), (0x6a, "OP_RETURN"), (0x6b, "OP_TOALTSTACK"),
   (0x6c, "OP_FROMALTSTACK"), (0x6d, "OP_2DROP"), (0x6e, "OP_2DUP"), (0x6f, "OP_3DUP"),
   (0x70, "OP_2OVER"), (0x71, "OP_2ROT"), (0x72, "OP_2SWAP"), (0x73, "OP_IFDUP"),
   (0x74, "OP_DEPTH"), (0x75, "OP_DROP"), (0x76, "OP_DUP"), (0x77, "OP_NIP"), (0x78, "OP_OVER"),
   (0x79, "OP_PICK"), (0x7a, "OP_ROLL"), (0x7b, "OP_ROT"), (0x7c, "OP_SWAP"), (0x7d, "OP_TUCK"),
   (0x7e, "OP_CAT"), (0x7f, "OP_SUBSTR"), (0x80, "OP_LEFT"), (0x81, "OP_RIGHT"), (0x82, "OP_SIZE"),
   (0x83, "OP_INVERT"), (0x84, "OP_AND"), (0x85, "OP_OR"), (0x86, "OP_XOR"), (0x87, "OP_EQUAL"),
   (0x88, "OP_EQUALVERIFY"), (0x89, "OP_RESERVED1"), (0x8a, "OP_RESERVED2"), (0x8b, "OP_1ADD"),
   (0x8c, "OP_1SUB"), (0x8d, "OP_2MUL"), (0x8e, "OP_2DIV"), (0x8f, "OP_NEGATE"), (0x90, "OP_ABS"),
   (0x91, "OP_NOT"), (0x92, "OP_0NOTEQUAL"), (0x93, "OP_ADD"), (0x94, "OP_SUB"), (0x95, "OP_MUL"),
   (0x96, "OP_DIV"), (0x97, "OP_MOD"), (0x98, "OP_LSHIFT"), (0x99, "OP_RSHIFT"),
   (0x9a, "OP_BOOLAND"), (0x9b, "OP_BOOLOR"), (0x9c, "OP_NUMEQUAL"), (0x9d, "OP_NUMEQUALVERIFY"),
   (0x9e, "OP_NUMNOTEQUAL"), (0x9f, "OP_LESSTHAN"), (0xa0, "OP_GREATERTHAN"),
   (0xa1, "OP_LESSTHANOREQUAL"), (0xa2, "OP_GREATERTHANOREQUAL"), (0xa3, "OP_MIN"),
   (0xa4, "OP_MAX"), (0xa5, "OP_WITHIN"), (0xa6, "OP_RIPEMD160"), (0xa7, "OP_SHA1"),
   (0xa8, "OP_SHA256"), (0xa9, "OP_HASH160"), (0xaa, "OP_HASH256"), (0xab, "OP_CODESEPARATOR"),
   (0xac, "OP_CHECKSIG"), (0xad, "OP_CHECKSIGVERIFY"), (0xae, "OP_CHECKMULTISIG"),
   (0xaf, "OP_CHECKMULTISIGVERIFY"), (0xb0, "OP_NOP1"), (0xb1, "OP_CHECKLOCKTIMEVERIFY"),
   (0xb2, "OP_CHECKSEQUENCEVERIFY"), (0xba, "OP_CHECKSIGADD"), (0xff, "OP_INVALIDOPCODE")]

def name (op : Opcode) : String :=
  if 0x01 ≤ op ∧ op ≤ data75 then "OP_DATA_" ++ toString op.toNat
  else if one ≤ op ∧ op ≤ sixteen then "OP_" ++ toString (op.toNat - 0x50)
  else if 0xb3 ≤ op ∧ op ≤ 0xb9 then "OP_NOP" ++ toString (op.toNat - 0xaf)
  else (mnemonics.lookup op).getD ("OP_UNKNOWN" ++ toString op.toNat)

def all : List Opcode := (List.range 256).map UInt8.ofNat

def ofName? (s : String) : Option Opcode := all.find? (name · = s)

/-- One for a bare opcode, one more than its operand for a direct push, and the width of the length,
negated, for the others. -/
def length (op : Opcode) : Int :=
  match op.operand with
  | .none => 1
  | .fixed n => n + 1
  | .sized w => -w

def IsDataPush (op : Opcode) : Prop := 0x01 ≤ op ∧ op ≤ pushData4

instance (op : Opcode) : Decidable (IsDataPush op) :=
  inferInstanceAs (Decidable (0x01 ≤ op ∧ op ≤ pushData4))

def IsPush (op : Opcode) : Prop := op ≤ sixteen ∧ op ≠ reserved

instance (op : Opcode) : Decidable (IsPush op) :=
  inferInstanceAs (Decidable (op ≤ sixteen ∧ op ≠ reserved))

/-- Whether the opcode runs inside a branch that does not. -/
def IsConditional (op : Opcode) : Prop := op = 0x63 ∨ op = 0x64 ∨ op = 0x67 ∨ op = 0x68

instance (op : Opcode) : Decidable (IsConditional op) :=
  inferInstanceAs (Decidable (op = 0x63 ∨ op = 0x64 ∨ op = 0x67 ∨ op = 0x68))

def small? (op : Opcode) : Option Nat :=
  if op = zero then some 0
  else if one ≤ op ∧ op ≤ sixteen then some (op.toNat - 0x50)
  else none

def ofSmall? (n : Nat) : Option Opcode :=
  if n = 0 then some zero else if n ≤ 16 then some (UInt8.ofNat (0x50 + n)) else none

def forPush? (n : Nat) : Option Opcode :=
  if n ≤ 75 then some (UInt8.ofNat n)
  else if n < 0x100 then some pushData1
  else if n < 0x10000 then some pushData2
  else if n < 0x100000000 then some pushData4
  else none

def lengthBytes (op : Opcode) (n : Nat) : Bytes :=
  match op.operand with
  | .sized w => leBytes w n
  | _ => []

def display (op : Opcode) : String :=
  "Opcode \x7b value: " ++ toString op.toNat ++ ", name: \"" ++ op.name ++ "\", length: "
    ++ toString op.length ++ " \x7d"

end Opcode

end BitcoinTx
