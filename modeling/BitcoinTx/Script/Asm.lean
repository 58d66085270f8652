import BitcoinTx.Script.Basic
import BitcoinTx.Text.Blank

/-! Scripts as text: opcode names, and pushed data in hex. -/

namespace BitcoinTx.Script

/-- Empty for a script that does not parse. -/
def toAsm (s : Script) : String :=
  match s.instructions with
  | .ok l => " ".intercalate (l.map Instruction.asm)
  | .error _ => ""

def isName (token : String) : Bool := "OP_".toList.isPrefixOf token.toList

def pushToken (s : Script) (token : String) : Except ScriptError Script :=
  if token = "0" ∨ token = "OP_FALSE" then s.pushOpcodes [Opcode.zero]
  else if token = "-1" then s.pushOpcodes [Opcode.minusOne]
  else if token = "OP_TRUE" then s.pushOpcodes [Opcode.one]
  else if isName token then
    match Opcode.ofName? token with
    | some op => s.pushOpcodes [op]
    | none => .error (.unknownOpcode token)
  else s.pushHex token

def ofAsm (text : String) : Except ScriptError Script := (Text.words text).foldlM pushToken empty

end BitcoinTx.Script
