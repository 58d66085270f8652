import BitcoinTx.Template
import BitcoinTx.Transaction.Outpoint
import BitcoinTx.Wire.CompactSize

/-! Inputs. Beside what travels on the wire, an input may hold what is known about the output that it
spends. -/

namespace BitcoinTx

structure SpentOutput where
  value : UInt64
  template : Template
  /-- The locking script as the coin has it. -/
  rawLocking : Script
  /-- The script that is evaluated after the unlocking script. -/
  finalLocking : Script
  redeem : Option Script
  /-- What signatures of a witness input commit to; none for other inputs. -/
  scriptCode : Option Script
deriving DecidableEq

namespace SpentOutput

variable [Crypto]

def ofCoin (coin : Coin) (redeem : Option Script) : Except ScriptError SpentOutput := do
  let rawLocking ← coin.lockingScript
  let template ← Template.ofLockingScript rawLocking
  let finalLocking ← template.finalLockingScript redeem
  let scriptCode ← template.scriptCode redeem
  return { value := coin.value, template, rawLocking, finalLocking, redeem, scriptCode }

def version (s : SpentOutput) : ScriptVersion := s.template.version

end SpentOutput

structure Input where
  outpoint : Outpoint
  sequence : UInt32
  unlocking : Script
  witness : List Bytes
  spent : Option SpentOutput
deriving DecidableEq

namespace Input

def finalSequence : UInt32 := 0xffffffff

def unsigned (outpoint : Outpoint) (sequence : UInt32) : Input :=
  { outpoint, sequence, unlocking := .empty, witness := [], spent := none }

def ofCoin [Crypto] (coin : Coin) (redeem : Option Script) (sequence : UInt32) :
    Except ScriptError Input :=
  (SpentOutput.ofCoin coin redeem).map fun s =>
    { unsigned coin.outpoint sequence with spent := some s }

def value? (i : Input) : Option UInt64 := i.spent.map (·.value)

def hasWitness (i : Input) : Bool := !i.witness.isEmpty

def spendsWitness (i : Input) : Bool := i.spent.any (·.version = .witnessV0)

def encode (i : Input) : Bytes :=
  i.outpoint.encode ++ varBytes i.unlocking.bytes ++ leBytes 4 i.sequence.toNat

def encodeWitness (i : Input) : Bytes :=
  CompactSize.encode i.witness.length ++ i.witness.flatMap varBytes

def sizeWith (n : Nat) : Nat := Outpoint.size + varBytesSize n + 4

def baseSize (i : Input) : Nat := sizeWith i.unlocking.size

def witnessSize (i : Input) : Nat :=
  CompactSize.size i.witness.length + sumOf (varBytesSize ·.length) i.witness

end Input

end BitcoinTx
