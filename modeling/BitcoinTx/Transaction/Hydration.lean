import BitcoinTx.Transaction.Basic

/-! Giving the inputs of a transaction that was read back what is known about their coins. -/

namespace BitcoinTx

variable [Crypto]

/-- The redeem script that the unlocking data of an input for a template ends with, if any. -/
def Input.redeem? (i : Input) (template : Template) : Except ScriptError (Option Script) :=
  match template with
  | .p2sh _ => do
    let l ← i.unlocking.instructions.mapError .malformed
    return (l.getLast?.filter (·.IsPush)).map fun last => ⟨last.content⟩
  | .p2wsh _ => .ok (i.witness.getLast?.map Script.mk)
  | .p2pkh _ | .p2wpkh _ => .ok none

/-- The given redeem script, or else the one found in the unlocking data. -/
def Input.findRedeem (i : Input) (coin : Coin) :
    Option Script → Except ScriptError (Option Script)
  | some r => .ok (some r)
  | none => do
    let template ← Template.ofLockingScript (← coin.lockingScript)
    i.redeem? template

def Input.spentOf (i : Input) (coin : Coin) (redeem : Option Script) :
    Except ScriptError SpentOutput := do
  SpentOutput.ofCoin coin (← i.findRedeem coin redeem)

def Transaction.hydrate (tx : Transaction) (index : Nat) (coin : Coin) (redeem : Option Script) :
    Except TransactionError Transaction := do
  let i ← tx.input index
  if coin.outpoint ≠ i.outpoint then throw (.coinMismatch coin.outpoint i.outpoint)
  let s ← (i.spentOf coin redeem).mapError .script
  return tx.modifyInput index ({ · with spent := some s })

end BitcoinTx
