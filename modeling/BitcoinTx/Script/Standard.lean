import BitcoinTx.Script.Basic

/-! The standard locking scripts, as bytes. -/

namespace BitcoinTx.Script

/-- The script `OP_DUP OP_HASH160 <hash> OP_EQUALVERIFY OP_CHECKSIG`. -/
def p2pkh (h : Hash160) : Script :=
  ⟨[Opcode.dup, Opcode.hash160, Opcode.data20] ++ h.val ++ [Opcode.equalVerify, Opcode.checkSig]⟩

/-- The script `OP_HASH160 <hash> OP_EQUAL`. -/
def p2sh (h : Hash160) : Script := ⟨[Opcode.hash160, Opcode.data20] ++ h.val ++ [Opcode.equal]⟩

/-- The script `OP_0 <program>`. -/
def witnessProgram (program : Bytes) : Script :=
  ⟨Opcode.zero :: UInt8.ofNat program.length :: program⟩

def witnessV0 (program : Bytes) : Except ScriptError Script :=
  if program.length = 20 ∨ program.length = 32 then .ok (witnessProgram program)
  else .error (.witnessProgramSize program.length)

/-- The script `OP_RETURN <data>`, which no input can spend. -/
def dataCarrier (data : Bytes) : Except ScriptError Script := pushData ⟨[Opcode.ret]⟩ data

/-- The script `OP_m <key> … OP_n OP_CHECKMULTISIG`. -/
def multisig (required : Nat) (keys : List Bytes) : Except ScriptError Script :=
  if required = 0 then .error .noSignatureRequired
  else if keys.length < required then .error (.tooFewKeys keys.length required)
  else
    match Opcode.ofSmall? required, Opcode.ofSmall? keys.length with
    | some m, some n => do
      let s ← pushAll ⟨[m]⟩ keys
      s.pushOpcodes [n, Opcode.checkMultiSig]
    | _, _ => .error (.tooManyKeys keys.length)

def isP2pkh (s : Script) : Bool :=
  s.size = 25 && s.bytes.take 3 = [Opcode.dup, Opcode.hash160, Opcode.data20]
    && s.bytes.drop 23 = [Opcode.equalVerify, Opcode.checkSig]

def isP2sh (s : Script) : Bool :=
  s.size = 23 && s.bytes.take 2 = [Opcode.hash160, Opcode.data20] && s.bytes.drop 22 = [Opcode.equal]

def isP2wpkh (s : Script) : Bool := s.size = 22 && s.bytes.take 2 = [Opcode.zero, Opcode.data20]

def isP2wsh (s : Script) : Bool := s.size = 34 && s.bytes.take 2 = [Opcode.zero, Opcode.data32]

end BitcoinTx.Script
