import BitcoinTx.Script.Instruction

/-! Why the evaluation of a script fails. -/

namespace BitcoinTx

inductive EvalError where
  | stackIndex (index depth : Nat)
  | dupNothing
  | dropTooMany (count depth : Nat)
  | numberSize (number : Bytes) (max : Nat)
  | numberNotMinimal (number : Bytes)
  | conditionSize (size : Nat)
  | conditionValue (value : UInt8)
  /-- A branch opcode outside every conditional. -/
  | unmatched (opcode : Opcode)
  /-- A conditional still open at the end. -/
  | unclosed
  | missingHasher
  | missingVerifier
  | noSignatureHash (reason : String)
  | emptyStack
  | falseResult
  | earlyReturn
  | unsupported (opcode : Opcode)
  | reserved (opcode : Opcode)
  | malformed (cause : MalformedPush)
  | notPushOnly
  | scriptSize (size max : Nat)
  | elementSize (size max : Nat)
  | tooManyOps (max : Nat)
  | stackSize (depth max : Nat)
  | keyCount (count : Int) (max : Nat)
  | signatureCount (count : Int) (keys : Nat)
  | verify
  | equalVerify
  | numEqualVerify
  | checkSigVerify
  | checkMultiSigVerify
deriving DecidableEq

namespace EvalError

def code : EvalError → String
  | stackIndex _ _ | dupNothing | dropTooMany _ _ => "InvalidStackOperation"
  | numberSize _ _ => "NumberTooBig"
  | numberNotMinimal _ => "MinimalData"
  | conditionSize _ | conditionValue _ => "MinimalIf"
  | unmatched _ | unclosed => "UnbalancedConditional"
  | missingHasher => "MissingHasher"
  | missingVerifier => "MissingVerifier"
  | noSignatureHash _ => "SigHash"
  | emptyStack => "EmptyStack"
  | falseResult => "EvalFalse"
  | earlyReturn => "EarlyReturn"
  | unsupported _ => "UnsupportedOpcode"
  | reserved _ => "ReservedOpcode"
  | malformed _ => "MalformedPush"
  | notPushOnly => "NotPushOnly"
  | scriptSize _ _ => "ScriptTooBig"
  | elementSize _ _ => "ElementTooBig"
  | tooManyOps _ => "TooManyOperations"
  | stackSize _ _ => "StackOverflow"
  | keyCount _ _ => "InvalidPubKeyCount"
  | signatureCount _ _ => "InvalidSignatureCount"
  | verify => "Verify"
  | equalVerify => "EqualVerify"
  | numEqualVerify => "NumEqualVerify"
  | checkSigVerify => "CheckSigVerify"
  | checkMultiSigVerify => "CheckMultiSigVerify"

def description : EvalError → String
  | stackIndex index depth =>
    "index " ++ toString index ++ " is invalid for stack size " ++ toString depth
  | dupNothing => "attempt to dup 0 stack items"
  | dropTooMany count depth =>
    "attempt to drop " ++ toString count ++ " items from stack of " ++ toString depth
  | numberSize number max =>
    "numeric value encoded as " ++ Hex.encode number ++ " is " ++ toString number.length
      ++ " bytes which exceeds the max allowed of " ++ toString max
  | numberNotMinimal number =>
    "numeric value encoded as " ++ Hex.encode number ++ " is not minimally encoded"
  | conditionSize size => "conditional has data of length " ++ toString size
  | conditionValue value => "conditional value " ++ Hex.encode [value] ++ " is not 0x01"
  | unmatched opcode =>
    "encountered opcode " ++ opcode.name ++ " with no matching opcode to begin conditional execution"
  | unclosed => "end of script reached in conditional execution"
  | missingHasher => "no signature hasher configured"
  | missingVerifier => "no signature verifier configured"
  | noSignatureHash reason => reason
  | emptyStack => "stack empty at end of script execution"
  | falseResult => "false stack entry at end of script execution"
  | earlyReturn => "script returned early"
  | unsupported opcode => "attempt to execute unsupported opcode " ++ opcode.name
  | reserved opcode => "attempt to execute reserved opcode " ++ opcode.name
  | malformed cause => cause.message
  | notPushOnly => "pay to script hash unlocking script is not push only"
  | scriptSize size max =>
    "script size " ++ toString size ++ " is larger than max allowed size " ++ toString max
  | elementSize size max =>
    "element size " ++ toString size ++ " exceeds max allowed size " ++ toString max
  | tooManyOps max => "exceeded max operation limit of " ++ toString max
  | stackSize depth max =>
    "combined stack size " ++ toString depth ++ " > max allowed " ++ toString max
  | keyCount count max =>
    "number of pubkeys " ++ toString count ++ " is out of range 0..=" ++ toString max
  | signatureCount count keys =>
    "number of signatures " ++ toString count ++ " is out of range 0..=" ++ toString keys
  | verify => "OP_VERIFY failed"
  | equalVerify => "OP_EQUALVERIFY failed"
  | numEqualVerify => "OP_NUMEQUALVERIFY failed"
  | checkSigVerify => "OP_CHECKSIGVERIFY failed"
  | checkMultiSigVerify => "OP_CHECKMULTISIGVERIFY failed"

def message (e : EvalError) : String := e.code ++ ": " ++ e.description

end EvalError

/-- Why an evaluation ends without a value. -/
inductive Stop where
  | error (cause : EvalError)
  /-- The program is aborted: signed arithmetic leaves the 64 bits of its type. -/
  | panic
deriving DecidableEq

def Stop.message : Stop → String
  | error cause => cause.message
  | panic => "panic"

end BitcoinTx
