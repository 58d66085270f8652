import BitcoinTx.Transaction.Basic
import BitcoinTx.Transaction.HashType

/-! The digest that signatures outside witnesses cover. What is hashed is the transaction with all
unlocking scripts emptied but the one of the signed input, which gives way to the script code. The
hash type drops or blanks further parts. -/

namespace BitcoinTx

/-- The script code: the redeem script as it is, or else the locking script without separators. -/
def SpentOutput.legacyCode (s : SpentOutput) : Except MalformedPush Script :=
  match s.redeem with
  | some r => .ok r
  | none => s.finalLocking.removeOpcode Opcode.codeSeparator

namespace Transaction

def encodeSigned (i : Input) (code : Script) : Bytes :=
  i.outpoint.encode ++ varBytes code.bytes ++ leBytes 4 i.sequence.toNat

def encodeUnsigned (t : HashType) (i : Input) : Bytes :=
  let sequence := if t.base = .all then i.sequence else 0
  i.outpoint.encode ++ varBytes [] ++ leBytes 4 sequence.toNat

/-- The inputs from `position` on, of which that at `index` is signed. -/
def encodeForSigning (t : HashType) (index : Nat) (code : Script) : Nat → List Input → Bytes
  | _, [] => []
  | position, i :: rest =>
    (if position = index then encodeSigned i code else encodeUnsigned t i)
      ++ encodeForSigning t index code (position + 1) rest

def legacyInputs (tx : Transaction) (index : Nat) (code : Script) (t : HashType) : Bytes :=
  if t.anyoneCanPay then
    CompactSize.encode 1 ++ (tx.inputs[index]?.toList.flatMap (encodeSigned · code))
  else CompactSize.encode tx.inputs.length ++ encodeForSigning t index code 0 tx.inputs

def blankOutput : Output := ⟨0xffffffffffffffff, .empty⟩

def legacyOutputs (tx : Transaction) (index : Nat) (t : HashType) : Bytes :=
  match t.base with
  | .all => tx.encodeOutputs
  | .none => CompactSize.encode 0
  | .single =>
    CompactSize.encode (index + 1) ++ (List.replicate index blankOutput.encode).flatten
      ++ tx.outputs[index]?.toList.flatMap Output.encode

def legacyPreimage (tx : Transaction) (index : Nat) (code : Script) (t : HashType) : Bytes :=
  leBytes 4 tx.version.toNat ++ tx.legacyInputs index code t ++ tx.legacyOutputs index t
    ++ leBytes 4 tx.lockTime.toNat ++ leBytes 4 t.word.toNat

/-- The digest when the signed output does not exist: the number one, least significant byte
first. -/
def noOutputDigest : Hash256 := ⟨1 :: List.replicate 31 0, rfl⟩

def legacyDigest [Crypto] (tx : Transaction) (index : Nat) (t : HashType) :
    Except TransactionError Hash256 := do
  let s ← tx.spent index
  if t.base = .single ∧ tx.outputs.length ≤ index then return noOutputDigest
  let code ← s.legacyCode.mapError (.script <| .malformed ·)
  return sha256d (tx.legacyPreimage index code t)

end Transaction

end BitcoinTx
