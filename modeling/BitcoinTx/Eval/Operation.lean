import BitcoinTx.Script.Opcode

/-! What opcodes do: each of the 256 stands for one of a few operations. -/

namespace BitcoinTx

inductive HashFunction where
  | ripemd160
  | sha256
  | hash160
  | sha256d
deriving DecidableEq, Repr

/-- The flag of the comparing and checking operations tells whether they fail on a false result
instead of pushing it. -/
inductive Operation where
  | push
  | pushNumber (v : Int)
  | nop
  | branch (negate : Bool)
  | otherwise
  | endBranch
  | verify
  | ret
  | dup (count : Nat)
  | drop (count : Nat)
  | nip
  | copySecond
  | swap
  | depth
  | size
  | equal (verify : Bool)
  | increment
  | decrement
  | add
  | subtract
  | numEqual (verify : Bool)
  | hash (f : HashFunction)
  | checkSig (verify : Bool)
  | checkMultiSig (verify : Bool)
  | reserved
  | unsupported
deriving DecidableEq, Repr

def Operation.ofCommand (op : Opcode) : Operation :=
  match op with
  | 0x61 | 0xab => .nop
  | 0x62 | 0x65 | 0x66 | 0x89 | 0x8a => .reserved
  | 0x63 => .branch false
  | 0x64 => .branch true
  | 0x67 => .otherwise
  | 0x68 => .endBranch
  | 0x69 => .verify
  | 0x6a => .ret
  | 0x6d => .drop 2
  | 0x6e => .dup 2
  | 0x6f => .dup 3
  | 0x74 => .depth
  | 0x75 => .drop 1
  | 0x76 => .dup 1
  | 0x77 => .nip
  | 0x78 => .copySecond
  | 0x7c => .swap
  | 0x82 => .size
  | 0x87 => .equal false
  | 0x88 => .equal true
  | 0x8b => .increment
  | 0x8c => .decrement
  | 0x93 => .add
  | 0x94 => .subtract
  | 0x9c => .numEqual false
  | 0x9d => .numEqual true
  | 0xa6 => .hash .ripemd160
  | 0xa8 => .hash .sha256
  | 0xa9 => .hash .hash160
  | 0xaa => .hash .sha256d
  | 0xac => .checkSig false
  | 0xad => .checkSig true
  | 0xae => .checkMultiSig false
  | 0xaf => .checkMultiSig true
  | _ => .unsupported

def Opcode.operation (op : Opcode) : Operation :=
  if op.IsDataPush then .push
  else if op = minusOne then .pushNumber (-1)
  else if op = .reserved then .reserved
  else
    match op.small? with
    | some n => .pushNumber n
    | none => .ofCommand op

end BitcoinTx
