import BitcoinTx.Transaction.Basic
import BitcoinTx.Wire.Reader

/-! Reading transactions. No inputs and then the witness flag start the witness form. -/

namespace BitcoinTx

abbrev TransactionReader := EStateM TransactionError Bytes

def TransactionField.read {α : Type} (field : TransactionField) (x : Reader α) :
    TransactionReader α :=
  EStateM.adaptExcept (.decode field) x

def Outpoint.read : TransactionReader Outpoint := do
  let txid ← TransactionField.txid.read (Reader.fixed 32)
  let index ← TransactionField.index.read Reader.u32
  return ⟨⟨txid⟩, index⟩

def Input.read : TransactionReader Input := do
  let outpoint ← Outpoint.read
  let unlocking ← TransactionField.unlockingScript.read Reader.varBytes
  let sequence ← TransactionField.sequence.read Reader.u32
  return { unsigned outpoint sequence with unlocking := ⟨unlocking⟩ }

def Input.readWitness (i : Input) : TransactionReader Input := do
  let count ← TransactionField.witnessCount.read Reader.compactSize
  let witness ← Reader.replicate count (TransactionField.witnessItem.read Reader.varBytes)
  return { i with witness }

def Output.read : TransactionReader Output := do
  let value ← TransactionField.value.read Reader.u64
  let script ← TransactionField.lockingScript.read Reader.varBytes
  return ⟨value, ⟨script⟩⟩

namespace Transaction

/-- Reads the number of inputs, and whether the witness form follows. An end of the data or a zero
behind no inputs is left for what is read next. -/
def readInputCount : TransactionReader (Nat × Bool) := do
  let count ← TransactionField.inputCount.read Reader.compactSize
  if count ≠ 0 then return (count, false)
  match (← get).head? with
  | none => return (0, false)
  | some flag =>
    if flag = witnessFlag then
      discard (TransactionField.witnessFlag.read Reader.u8)
      return (← TransactionField.inputCount.read Reader.compactSize, true)
    else if flag = 0 then return (0, false)
    else throw (.witnessFlag flag)

/-- Reads the witness stacks, of which one at least has to hold an item. -/
def readWitnesses (inputs : List Input) : TransactionReader (List Input) := do
  let inputs ← inputs.mapM Input.readWitness
  if inputs.any (·.hasWitness) then return inputs else throw .superfluousWitness

def read : TransactionReader Transaction := do
  let version ← TransactionField.version.read Reader.u32
  let (count, witness) ← readInputCount
  let inputs ← Reader.replicate count Input.read
  let outputCount ← TransactionField.outputCount.read Reader.compactSize
  let outputs ← Reader.replicate outputCount Output.read
  let inputs ← if witness then readWitnesses inputs else pure inputs
  let lockTime ← TransactionField.lockTime.read Reader.u32
  return { version, lockTime, inputs, outputs }

def ofBytes (b : Bytes) : Except TransactionError Transaction :=
  match read.run b with
  | .error e _ => .error e
  | .ok tx [] => .ok tx
  | .ok _ rest => .error (.trailing rest.length)

def ofHex (text : String) : Except TransactionError Transaction :=
  match Hex.decode text with
  | .error e => .error (.data (.hex e))
  | .ok b => ofBytes b

end Transaction

end BitcoinTx
