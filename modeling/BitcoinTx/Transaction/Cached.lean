import BitcoinTx.Transaction.Hydration
import BitcoinTx.Transaction.Verification

/-! Transactions that remember the hashes their inputs share. The hashes are computed when they are
first asked for, and dropped by whatever may change an outpoint, a sequence number or an output. -/

namespace BitcoinTx

structure CachedTransaction where
  tx : Transaction
  midstate? : Option Midstate := none
deriving DecidableEq

/-- Operations on a transaction that may compute the shared hashes, also when they fail. -/
abbrev CachedM := EStateM TransactionError CachedTransaction

namespace CachedTransaction

variable [Crypto]

def empty : CachedTransaction := { tx := .empty }

def clone (c : CachedTransaction) : CachedTransaction := { tx := c.tx, midstate? := c.midstate? }

def change (f : Transaction → Transaction) : CachedM Unit := modify fun c => { tx := f c.tx }

/-- Changes what the hashes do not depend on. -/
def keep (f : Transaction → Except TransactionError Transaction) : CachedM Unit := do
  let c ← get
  set { c with tx := ← ofExcept (f c.tx) }

def addInput (i : Input) : CachedM Unit := change (·.addInput i)

def addOutput (o : Output) : CachedM Unit := change (·.addOutput o)

/-- Changes an input; false when there is none at `index`, in which case the hashes are dropped as
well. -/
def modifyInput (index : Nat) (f : Input → Input) : CachedM Bool := do
  change (·.modifyInput index f)
  return index < (← get).tx.inputs.length

def modifyOutput (index : Nat) (f : Output → Output) : CachedM Bool := do
  change (·.modifyOutput index f)
  return index < (← get).tx.outputs.length

def setVersion (n : UInt32) : CachedM Unit := keep fun tx => .ok { tx with version := n }

def setLockTime (n : UInt32) : CachedM Unit := keep fun tx => .ok { tx with lockTime := n }

def hydrate (index : Nat) (coin : Coin) (redeem : Option Script) : CachedM Unit :=
  keep (·.hydrate index coin redeem)

def midstate : CachedM Midstate := do
  let c ← get
  let mid := c.midstate?.getD c.tx.midstate
  set { c with midstate? := some mid }
  return mid

def witnessPreimage (index : Nat) (t : HashType) : CachedM Bytes := do
  discard (ofExcept ((← get).tx.spent index))
  let mid ← midstate
  ofExcept ((← get).tx.witnessPreimageWith mid index t)

def witnessDigest (index : Nat) (t : HashType) : CachedM Hash256 :=
  sha256d <$> witnessPreimage index t

def signLegacy (index : Nat) (s : Signer) : CachedM Unit := keep (·.signLegacy index s)

def signWitness (index : Nat) (s : Signer) : CachedM Unit := do
  let digest ← witnessDigest index s.hashType
  keep fun tx => do tx.unlockWitness index (← s.signatures digest)

def sign (index : Nat) (s : Signer) : CachedM Unit := do
  match ← ofExcept ((← get).tx.signingMethod index s) with
  | .legacy => signLegacy index s
  | .witness => signWitness index s

def verifyInput (index : Nat) : CachedM Unit := do
  let s ← ofExcept ((← get).tx.spent index)
  if s.version = .witnessV0 then discard midstate
  let c ← get
  ofExcept (c.tx.verifyInputWith (c.midstate?.getD c.tx.midstate) index)

def verify : CachedM Unit := do
  (List.range (← get).tx.inputs.length).forM verifyInput

end CachedTransaction

end BitcoinTx
