import BitcoinTx.Transaction.Basic
import BitcoinTx.Transaction.HashType

/-! The digest of BIP 143 that signatures in witnesses cover. It commits to the spent value, and its
hashes over all inputs and outputs are the same for every input. -/

namespace BitcoinTx

/-- The hashes that the inputs of a transaction share. They depend on the outpoints, the sequence
numbers and the outputs alone. -/
structure Midstate where
  prevouts : Hash256
  sequences : Hash256
  outputs : Hash256
deriving DecidableEq

/-- The script code: the one derived from the coin, or else the redeem or the locking script. -/
def SpentOutput.witnessCode (s : SpentOutput) : Script :=
  match s.scriptCode, s.redeem with
  | some code, _ => code
  | none, some r => r
  | none, none => s.finalLocking

namespace Transaction

variable [Crypto]

def encodePrevouts (tx : Transaction) : Bytes := tx.inputs.flatMap (·.outpoint.encode)

def encodeSequences (tx : Transaction) : Bytes := tx.inputs.flatMap (leBytes 4 ·.sequence.toNat)

def midstate (tx : Transaction) : Midstate where
  prevouts := sha256d tx.encodePrevouts
  sequences := sha256d tx.encodeSequences
  outputs := sha256d (tx.outputs.flatMap Output.encode)

def hashPrevouts (mid : Midstate) (t : HashType) : Hash256 :=
  if t.anyoneCanPay then .zero 32 else mid.prevouts

def hashSequences (mid : Midstate) (t : HashType) : Hash256 :=
  if t.anyoneCanPay ∨ t.base ≠ .all then .zero 32 else mid.sequences

def hashOutputs (mid : Midstate) (tx : Transaction) (index : Nat) (t : HashType) : Hash256 :=
  match t.base with
  | .all => mid.outputs
  | .none => .zero 32
  | .single =>
    match tx.outputs[index]? with
    | some o => sha256d o.encode
    | none => .zero 32

def witnessPreimageWith (mid : Midstate) (tx : Transaction) (index : Nat) (t : HashType) :
    Except TransactionError Bytes := do
  let i ← tx.input index
  let s ← tx.spent index
  return leBytes 4 tx.version.toNat ++ (hashPrevouts mid t).val ++ (hashSequences mid t).val
    ++ i.outpoint.encode ++ varBytes s.witnessCode.bytes ++ leBytes 8 s.value.toNat
    ++ leBytes 4 i.sequence.toNat ++ (hashOutputs mid tx index t).val
    ++ leBytes 4 tx.lockTime.toNat ++ leBytes 4 t.word.toNat

def witnessPreimage (tx : Transaction) (index : Nat) (t : HashType) : Except TransactionError Bytes :=
  tx.witnessPreimageWith tx.midstate index t

def witnessDigestWith (mid : Midstate) (tx : Transaction) (index : Nat) (t : HashType) :
    Except TransactionError Hash256 :=
  (witnessPreimageWith mid tx index t).map sha256d

def witnessDigest (tx : Transaction) (index : Nat) (t : HashType) : Except TransactionError Hash256 :=
  tx.witnessDigestWith tx.midstate index t

end Transaction

end BitcoinTx
