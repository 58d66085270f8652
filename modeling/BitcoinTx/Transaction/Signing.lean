import BitcoinTx.Key.Public
import BitcoinTx.Transaction.LegacyDigest
import BitcoinTx.Transaction.WitnessDigest

/-! Signing inputs. The signatures of an input cover one digest; the template of the spent output says
how they unlock it. -/

namespace BitcoinTx

variable [Crypto]

/-- The keys of an input, in the order in which the redeem script has them, and how to sign. -/
structure Signer where
  keys : List SecretKey
  compressed : Bool := true
  hashType : HashType := ⟨1⟩

namespace Signer

def signWith (s : Signer) (digest : Hash256) (key : SecretKey) : Except DataError KeySignature :=
  (key.sign digest).map fun signature =>
    { key := key.publicKey.serialize s.compressed, signature := signature.toDer ++ [s.hashType.byte] }

def signatures (s : Signer) (digest : Hash256) : Except TransactionError (List KeySignature) :=
  (s.keys.mapM (s.signWith digest)).mapError .data

end Signer

namespace Transaction

def unlockLegacy (tx : Transaction) (index : Nat) (l : List KeySignature) :
    Except TransactionError Transaction := do
  let s ← tx.spent index
  let unlocking ← (s.template.unlockingScript l s.redeem).mapError .script
  return tx.modifyInput index ({ · with unlocking, witness := [] })

def unlockWitness (tx : Transaction) (index : Nat) (l : List KeySignature) :
    Except TransactionError Transaction := do
  let s ← tx.spent index
  let witness ← (s.template.witnessStack l s.redeem).mapError .script
  let unlocking ← (s.template.unlockingScript l s.redeem).mapError .script
  return tx.modifyInput index ({ · with unlocking, witness })

def signLegacy (tx : Transaction) (index : Nat) (s : Signer) : Except TransactionError Transaction := do
  tx.unlockLegacy index (← s.signatures (← tx.legacyDigest index s.hashType))

def signWitnessWith (mid : Midstate) (tx : Transaction) (index : Nat) (s : Signer) :
    Except TransactionError Transaction := do
  tx.unlockWitness index (← s.signatures (← tx.witnessDigestWith mid index s.hashType))

def signWitness (tx : Transaction) (index : Nat) (s : Signer) : Except TransactionError Transaction :=
  tx.signWitnessWith tx.midstate index s

inductive SigningMethod where
  | legacy
  | witness
deriving DecidableEq, Repr

/-- How an input is signed: in its witness when it has a script code for that. -/
def signingMethod (tx : Transaction) (index : Nat) (s : Signer) :
    Except TransactionError SigningMethod := do
  let spent ← tx.spent index
  if 1 < s.keys.length ∧ spent.redeem = none then throw (.multipleKeys index)
  return if spent.scriptCode = none then .legacy else .witness

def sign (tx : Transaction) (index : Nat) (s : Signer) : Except TransactionError Transaction := do
  match ← tx.signingMethod index s with
  | .legacy => tx.signLegacy index s
  | .witness => tx.signWitness index s

end Transaction

end BitcoinTx
