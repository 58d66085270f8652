import BitcoinTx.Builder.Basic
import BitcoinTx.Transaction.Estimate
import BitcoinTx.Transaction.Signing

/-! Building the transaction that a builder describes: inputs and payments in the order of the groups,
then the change, then the data outputs. What goes in covers what goes out and the fee. -/

namespace BitcoinTx

inductive BuilderError where
  | noInputs
  | noOutputs
  | noChangeAddress (change : Nat)
  | noSigningKeys (index : Nat)
  | feeTooHigh (fee max : Nat)
  | amountNotEnough
  | insufficientFee (fee available : Nat)
  | valueOverflow
  | group (index : Nat) (cause : TransactionError)
  | transaction (cause : TransactionError)
deriving DecidableEq

def BuilderError.message : BuilderError → String
  | .noInputs => "no inputs"
  | .noOutputs => "no outputs"
  | .noChangeAddress change => "no change address for change of " ++ toString change
  | .noSigningKeys index => "group " ++ toString index ++ ": no signing keys"
  | .feeTooHigh fee max => "fee " ++ toString fee ++ " exceeds maximum " ++ toString max
  | .amountNotEnough => "amount not enough"
  | .insufficientFee fee available =>
    "insufficient fee: need " ++ toString fee ++ ", have " ++ toString available
  | .valueOverflow => "value overflow"
  | .group index cause => "group " ++ toString index ++ ": " ++ cause.message
  | .transaction cause => cause.message

def addAmount (total : Nat) (value : UInt64) : Except BuilderError Nat :=
  if total + value.toNat ≤ Transaction.maxAmount then .ok (total + value.toNat)
  else .error .valueOverflow

def Destination.lockingScript : Destination → Except ScriptError Script
  | address a => a.lockingScript
  | script hex => Script.ofHex hex

-- a list of as many bytes as are refused here has no room in memory
def dataScript (d : ByteArray) : Except ScriptError Script :=
  if 0x100000000 ≤ d.size then .error (.dataTooBig d.size) else Script.dataCarrier d.data.toList

namespace Builder

variable [Crypto]

structure FundedInput where
  index : Nat
  group : BuilderGroup
  input : Input

def collectInputs (index total : Nat) :
    List BuilderGroup → Except BuilderError (List FundedInput × Nat)
  | [] => .ok ([], total)
  | g :: rest =>
    match g.coin with
    | none => collectInputs (index + 1) total rest
    | some coin => do
      let input ← (Input.ofCoin coin g.redeem g.sequence).mapError (.group index <| .script ·)
      let total ← addAmount total coin.value
      let (inputs, total) ← collectInputs (index + 1) total rest
      return (⟨index, g, input⟩ :: inputs, total)

def collectPayments (index total : Nat) :
    List BuilderGroup → Except BuilderError (List Output × Nat)
  | [] => .ok ([], total)
  | g :: rest =>
    match g.payment with
    | none => collectPayments (index + 1) total rest
    | some p => do
      let script ← p.destination.lockingScript.mapError (.group index <| .script ·)
      let total ← addAmount total p.value
      let (outputs, total) ← collectPayments (index + 1) total rest
      return (⟨p.value, script⟩ :: outputs, total)

def dataOutputs (b : Builder) : Except BuilderError (List Output) :=
  (b.data.mapM fun d => (dataScript d).map (Output.mk 0)).mapError (.transaction <| .script ·)

def changeScript? (b : Builder) : Except BuilderError (Option Script) :=
  (b.change.mapM AddressFields.lockingScript).mapError (.transaction <| .script ·)

def assemble (b : Builder) (inputs : List Input) (outputs : List Output) : Transaction :=
  { version := b.version, lockTime := b.lockTime, inputs, outputs }

/-- The transaction that the fee is estimated for: with data, and with change if that has an
address. -/
def draft (b : Builder) (inputs : List Input) (payments : List Output) (changeScript? : Option Script)
    (data : List Output) : Transaction :=
  b.assemble inputs (payments ++ (changeScript?.map (Output.mk 0)).toList ++ data)

def fee (b : Builder) (draft : Transaction) : Nat :=
  match b.settings.relayRate with
  | some rate => feeFor draft.estimateSize rate
  | none => b.settings.flatFee.toNat

def changeAfter (b : Builder) (totalIn totalOut fee : Nat) : Except BuilderError Nat :=
  if b.settings.maxFee.toNat < fee then .error (.feeTooHigh fee b.settings.maxFee.toNat)
  else if totalIn < totalOut then .error .amountNotEnough
  else if totalIn - totalOut < fee then .error (.insufficientFee fee (totalIn - totalOut))
  else .ok (totalIn - totalOut - fee)

def changeOutputs (changeScript? : Option Script) (change : Nat) : Except BuilderError (List Output) :=
  if change = 0 then .ok []
  else
    match changeScript? with
    | some script => .ok [⟨.ofNat change, script⟩]
    | none => .error (.noChangeAddress change)

def fund (b : Builder) : Except BuilderError (Transaction × List FundedInput) := do
  let (funded, totalIn) ← collectInputs 0 0 b.groups
  let (payments, totalOut) ← collectPayments 0 0 b.groups
  if funded.isEmpty then throw .noInputs
  if payments.isEmpty then throw .noOutputs
  let inputs := funded.map FundedInput.input
  let changeScript? ← b.changeScript?
  let data ← b.dataOutputs
  let change ← b.changeAfter totalIn totalOut (b.fee (b.draft inputs payments changeScript? data))
  let changeOutputs ← changeOutputs changeScript? change
  return (b.assemble inputs (payments ++ changeOutputs ++ data), funded)

def signAll (tx : Transaction) (position : Nat) :
    List FundedInput → Except BuilderError Transaction
  | [] => .ok tx
  | f :: rest => do
    if f.group.keys.isEmpty then throw (.noSigningKeys f.index)
    let signer : Signer :=
      { keys := f.group.keys, compressed := f.group.compressed, hashType := ⟨f.group.hashType⟩ }
    signAll (← (tx.sign position signer).mapError (.group f.index)) (position + 1) rest

def build (b : Builder) : Except BuilderError Transaction := do
  let (tx, funded) ← b.fund
  if b.settings.sign then signAll tx 0 funded else return tx

end Builder

end BitcoinTx
