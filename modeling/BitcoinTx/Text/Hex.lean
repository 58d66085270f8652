import BitcoinTx.Text.Latin
import BitcoinTx.Text.Utf8

/-! Hexadecimal text: two digits a byte, written in lower case and read in either case. -/

namespace BitcoinTx

inductive HexError where
  | oddLength
  /-- The byte at `index` of the text is no digit. -/
  | badDigit (byte : UInt8) (index : Nat)
deriving DecidableEq, Repr

def HexError.message : HexError → String
  | .oddLength => "Odd number of digits"
  | .badDigit byte index =>
    "Invalid character " ++ Text.quoteByte byte ++ " at position " ++ toString index

namespace Hex

def encodeByte (b : UInt8) : List Char :=
  [Text.hexDigit (b.toNat / 16), Text.hexDigit (b.toNat % 16)]

def encode (b : Bytes) : String := String.ofList (b.flatMap encodeByte)

def digit? (c : UInt8) : Option UInt8 :=
  if 0x30 ≤ c ∧ c ≤ 0x39 then some (c - 0x30)
  else if 0x61 ≤ c ∧ c ≤ 0x66 then some (c - 0x57)
  else if 0x41 ≤ c ∧ c ≤ 0x46 then some (c - 0x37)
  else none

/-- The first byte that is no digit, counting from `index`. -/
def firstBad? (index : Nat) : Bytes → Option (UInt8 × Nat)
  | [] => none
  | c :: cs => if (digit? c).isSome then firstBad? (index + 1) cs else some (c, index)

def pairUp : Bytes → Bytes
  | hi :: lo :: rest => (16 * (digit? hi).getD 0 + (digit? lo).getD 0) :: pairUp rest
  | _ => []

def decodeBytes (text : Bytes) : Except HexError Bytes :=
  if text.length % 2 = 1 then .error .oddLength
  else
    match firstBad? 0 text with
    | some (c, i) => .error (.badDigit c i)
    | none => .ok (pairUp text)

def decode (s : String) : Except HexError Bytes := decodeBytes (Utf8.encode s)

end Hex

end BitcoinTx
