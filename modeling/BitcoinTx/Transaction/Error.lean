import BitcoinTx.Eval.Error
import BitcoinTx.Script.Error
import BitcoinTx.Transaction.Outpoint

/-! Why a transaction cannot be read, signed or verified. -/

namespace BitcoinTx

inductive TransactionField where
  | version
  | inputCount
  | witnessFlag
  | outputCount
  | lockTime
  | txid
  | index
  | unlockingScript
  | sequence
  | value
  | lockingScript
  | witnessCount
  | witnessItem
deriving DecidableEq, Repr

def TransactionField.name : TransactionField → String
  | .version => "version"
  | .inputCount => "input count"
  | .witnessFlag => "witness flag"
  | .outputCount => "output count"
  | .lockTime => "lock time"
  | .txid => "outpoint txid"
  | .index => "outpoint index"
  | .unlockingScript => "unlocking script"
  | .sequence => "sequence"
  | .value => "output value"
  | .lockingScript => "locking script"
  | .witnessCount => "witness count"
  | .witnessItem => "witness item"

inductive TransactionError where
  | decode (field : TransactionField) (cause : DataError)
  | witnessFlag (flag : UInt8)
  /-- The witness form, but all witness stacks are empty. -/
  | superfluousWitness
  | trailing (size : Nat)
  | noInput (index count : Nat)
  /-- Several keys, and no redeem script that says how they combine. -/
  | multipleKeys (input : Nat)
  | unknownCoin (input : Nat)
  | coinMismatch (coin input : Outpoint)
  | verification (input : Nat) (outpoint : Outpoint) (cause : Stop)
  | script (cause : ScriptError)
  | data (cause : DataError)
deriving DecidableEq

def TransactionError.message : TransactionError → String
  | .decode field cause => "reading " ++ field.name ++ ": " ++ cause.message
  | .witnessFlag flag => "unsupported witness flag 0x" ++ Hex.encode [flag]
  | .superfluousWitness => "witness flag set but no input has a witness"
  | .trailing size => "trailing " ++ toString size ++ " bytes after transaction"
  | .noInput index count =>
    "input index " ++ toString index ++ " out of range (tx has " ++ toString count ++ " inputs)"
  | .multipleKeys input => "input " ++ toString input ++ ": multiple keys require a redeem script"
  | .unknownCoin input => "input " ++ toString input ++ ": spent coin unknown"
  | .coinMismatch coin input =>
    "coin " ++ coin.toText ++ " does not match input outpoint " ++ input.toText
  | .verification input outpoint cause =>
    "input " ++ toString input ++ " (" ++ outpoint.toText ++ ") failed verification: "
      ++ cause.message
  | .script cause => "script error: " ++ cause.message
  | .data cause => "primitives error: " ++ cause.message

def Outpoint.ofHex (txid : String) (index : UInt32) : Except TransactionError Outpoint :=
  ((Txid.ofHex txid).map (⟨·, index⟩)).mapError .data

end BitcoinTx
