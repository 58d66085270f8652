import BitcoinTx.Eval.Run
import BitcoinTx.Transaction.Signing

/-! Verifying inputs: their unlocking data is evaluated together with the script that they spend. -/

namespace BitcoinTx

variable [Crypto]

def checkEcdsa (hash : Hash256) (der key : Bytes) : Bool :=
  match PublicKey.ofBytes key with
  | .ok k => (k.verifyDer hash der).isOk
  | .error _ => false

namespace Transaction

def digestWith (mid : Midstate) (tx : Transaction) (version : ScriptVersion) (index : Nat)
    (t : HashType) : Except TransactionError Hash256 :=
  match version with
  | .base => tx.legacyDigest index t
  | .witnessV0 => tx.witnessDigestWith mid index t

def evaluatorWith (mid : Midstate) (tx : Transaction) (version : ScriptVersion) (index : Nat) :
    Evaluator where
  hasher := some fun t =>
    (tx.digestWith mid version index ⟨t⟩).mapError fun e => .noSignatureHash e.message
  verifier := some checkEcdsa

/-- The script that an input unlocks with: a witness stack counts as a script that pushes it. -/
def unlockingScript (version : ScriptVersion) (i : Input) : Except ScriptError Script :=
  match version with
  | .base => .ok i.unlocking
  | .witnessV0 => Script.ofWitness i.witness

def verifyInputWith (mid : Midstate) (tx : Transaction) (index : Nat) :
    Except TransactionError Unit := do
  let i ← tx.input index
  let s ← tx.spent index
  let unlocking ← (unlockingScript s.version i).mapError .script
  match (tx.evaluatorWith mid s.version index).verify unlocking s.finalLocking {} with
  | .ok _ _ => return ()
  | .error e _ => throw (.verification index i.outpoint e)

def verifyInput (tx : Transaction) (index : Nat) : Except TransactionError Unit :=
  tx.verifyInputWith tx.midstate index

def verifyWith (mid : Midstate) (tx : Transaction) : Except TransactionError Unit :=
  (List.range tx.inputs.length).forM (tx.verifyInputWith mid)

def verify (tx : Transaction) : Except TransactionError Unit := tx.verifyWith tx.midstate

end Transaction

end BitcoinTx
