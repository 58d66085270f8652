import BitcoinTx.Script.Instruction

/-! Why a script, an address or a template cannot be built or read. -/

namespace BitcoinTx

/-- The scripts whose hash stands in a locking script. -/
inductive Commitment where
  | p2sh
  | p2wsh
deriving DecidableEq, Repr

def Commitment.name : Commitment → String
  | .p2sh => "P2SH"
  | .p2wsh => "P2WSH"

/-- The locking scripts that one key satisfies. -/
inductive KeyCommitment where
  | p2pkh
  | p2wpkh
deriving DecidableEq, Repr

def KeyCommitment.name : KeyCommitment → String
  | .p2pkh => "P2PKH"
  | .p2wpkh => "P2WPKH"

/-- The standard locking scripts an address may stand for. -/
inductive AddressKind where
  | p2pkh
  | p2sh
  | p2wpkh
  | p2wsh
deriving DecidableEq, Repr

namespace AddressKind

def name : AddressKind → String
  | .p2pkh => "P2pkh"
  | .p2sh => "P2sh"
  | .p2wpkh => "P2wpkh"
  | .p2wsh => "P2wsh"

def payloadSize : AddressKind → Nat
  | .p2wsh => 32
  | _ => 20

end AddressKind

inductive ScriptError where
  | unknownOpcode (token : String)
  | badPushHex
  /-- The opcode carries data and cannot stand alone. -/
  | bareDataPush (opcode : Opcode)
  | malformed (cause : MalformedPush)
  | dataTooBig (size : Nat)
  | unknownShape (script : Bytes)
  | witnessProgramSize (size : Nat)
  | tooFewKeys (keys required : Nat)
  | noSignatureRequired
  | tooManyKeys (keys : Nat)
  | missingRedeem (commitment : Commitment)
  | redeemMismatch (commitment : Commitment) (expected : Bytes)
  | signatureCount (commitment : KeyCommitment) (got : Nat)
  | payloadSize (kind : AddressKind) (got : Nat)
  /-- The payload of an address is no hash of 20 bytes. -/
  | hashSize (size : Nat)
  | addressAlphabet (text : String)
  | addressSize (text : String) (size : Nat)
  | unsupportedAddress (text : String)
  | addressChecksum
  | hex (cause : HexError)
deriving DecidableEq

def ScriptError.message : ScriptError → String
  | .unknownOpcode token => "invalid opcode: " ++ token
  | .badPushHex => "invalid opcode data"
  | .bareDataPush opcode => "use append_push_data for push data opcodes: " ++ opcode.name
  | .malformed cause => cause.message
  | .dataTooBig size => "data too big: " ++ toString size ++ " bytes"
  | .unknownShape script => "script type unknown: " ++ Hex.encode script
  | .witnessProgramSize size =>
    "script type unknown: witness v0 program of " ++ toString size ++ " bytes"
  | .tooFewKeys keys required =>
    "pubkeys less than nrequired: " ++ toString keys ++ " < " ++ toString required
  | .noSignatureRequired => "invalid multisig parameters: nrequired must be at least 1"
  | .tooManyKeys keys => "invalid multisig parameters: " ++ toString keys ++ " pubkeys exceeds 16"
  | .missingRedeem commitment => "redeem script required for " ++ commitment.name
  | .redeemMismatch commitment expected =>
    "redeem script does not match " ++ commitment.name ++ " commitment " ++ Hex.encode expected
  | .signatureCount commitment got =>
    commitment.name ++ " requires exactly one signature, got " ++ toString got
  | .payloadSize kind got =>
    "invalid address: " ++ kind.name ++ " payload must be " ++ toString kind.payloadSize
      ++ " bytes, got " ++ toString got
  | .hashSize size => "invalid address: payload of " ++ toString size ++ " bytes"
  | .addressAlphabet text => "invalid address: bad char for '" ++ text ++ "'"
  | .addressSize text size =>
    "invalid address: '" ++ text ++ "' decodes to " ++ toString size ++ " bytes"
  | .unsupportedAddress text => "address not supported: " ++ text
  | .addressChecksum => "checksum failed"
  | .hex cause => "hex decode error: " ++ cause.message

end BitcoinTx
