import BitcoinTx.Transaction.Error
import BitcoinTx.Transaction.Input
import BitcoinTx.Transaction.Output

/-! Transactions, and how they are written: without witness data, or with a marker, a flag and the
witness stacks of all inputs. -/

namespace BitcoinTx

structure Transaction where
  version : UInt32
  lockTime : UInt32
  inputs : List Input
  outputs : List Output
deriving DecidableEq

namespace Transaction

def empty : Transaction := { version := 1, lockTime := 0, inputs := [], outputs := [] }

def input (tx : Transaction) (index : Nat) : Except TransactionError Input :=
  match tx.inputs[index]? with
  | some i => .ok i
  | none => .error (.noInput index tx.inputs.length)

def spent (tx : Transaction) (index : Nat) : Except TransactionError SpentOutput := do
  match (← tx.input index).spent with
  | some s => return s
  | none => throw (.unknownCoin index)

def addInput (tx : Transaction) (i : Input) : Transaction := { tx with inputs := tx.inputs ++ [i] }

def addOutput (tx : Transaction) (o : Output) : Transaction :=
  { tx with outputs := tx.outputs ++ [o] }

def modifyInput (tx : Transaction) (index : Nat) (f : Input → Input) : Transaction :=
  { tx with inputs := tx.inputs.modify index f }

def modifyOutput (tx : Transaction) (index : Nat) (f : Output → Output) : Transaction :=
  { tx with outputs := tx.outputs.modify index f }

def maxAmount : Nat := 0xffffffffffffffff

def firstUnknownCoin? (tx : Transaction) : Option Nat := tx.inputs.findIdx? (·.spent.isNone)

def totalInput (tx : Transaction) : Except TransactionError Nat :=
  match tx.firstUnknownCoin? with
  | some index => .error (.unknownCoin index)
  | none => .ok (min maxAmount (sumOf UInt64.toNat (tx.inputs.filterMap Input.value?)))

def totalOutput (tx : Transaction) : Nat := min maxAmount (sumOf (·.value.toNat) tx.outputs)

def isCoinbase (tx : Transaction) : Bool :=
  match tx.inputs with
  | [i] => i.outpoint = .null
  | _ => false

def hasWitness (tx : Transaction) : Bool := tx.inputs.any (·.hasWitness)

def witnessMarker : UInt8 := 0x00

def witnessFlag : UInt8 := 0x01

def encodeInputs (tx : Transaction) : Bytes :=
  CompactSize.encode tx.inputs.length ++ tx.inputs.flatMap Input.encode

def encodeOutputs (tx : Transaction) : Bytes :=
  CompactSize.encode tx.outputs.length ++ tx.outputs.flatMap Output.encode

/-- The form without witness data, which is what the id commits to. -/
def encodeBase (tx : Transaction) : Bytes :=
  leBytes 4 tx.version.toNat ++ tx.encodeInputs ++ tx.encodeOutputs ++ leBytes 4 tx.lockTime.toNat

def encodeWitness (tx : Transaction) : Bytes :=
  leBytes 4 tx.version.toNat ++ [witnessMarker, witnessFlag] ++ tx.encodeInputs ++ tx.encodeOutputs
    ++ tx.inputs.flatMap Input.encodeWitness ++ leBytes 4 tx.lockTime.toNat

def encode (tx : Transaction) : Bytes := if tx.hasWitness then tx.encodeWitness else tx.encodeBase

def toHex (tx : Transaction) : String := Hex.encode tx.encode

def txid [Crypto] (tx : Transaction) : Txid := .ofContent tx.encodeBase

def witnessId [Crypto] (tx : Transaction) : Txid := .ofContent tx.encode

end Transaction

end BitcoinTx
