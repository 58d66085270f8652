import BitcoinTx.Bytes.Digits
import BitcoinTx.Bytes.Endian
import BitcoinTx.Text.Latin
import BitcoinTx.Text.Utf8

/-! Base58: a byte string read as one big-endian number in base 58, each leading zero byte as a
leading `1`. -/

namespace BitcoinTx

inductive Base58Error where
  | nonAscii (index : Nat)
  | badSymbol (byte : UInt8) (index : Nat)
deriving DecidableEq, Repr

def Base58Error.message : Base58Error → String
  | .nonAscii index =>
    "provided string contained non-ascii character starting at byte " ++ toString index
  | .badSymbol byte index =>
    "provided string contained invalid character " ++ Text.quoteByte byte ++ " at byte " ++ toString index

namespace Base58

def alphabet : List Char := "123456789ABCDEFGHJKLMNPQRSTUVWXYZabcdefghijkmnopqrstuvwxyz".toList

def encode (b : Bytes) : String :=
  let zeros := (b.takeWhile (· = 0)).length
  let body := (digits 58 (beValue b)).reverse
  String.ofList ((List.replicate zeros 0 ++ body).map (alphabet.getD · '1'))

def symbol? (c : UInt8) : Option Nat := alphabet.idxOf? (Char.ofNat c.toNat)

def symbols (index : Nat) : Bytes → Except Base58Error (List Nat)
  | [] => .ok []
  | c :: cs => do
    if 127 < c then throw (.nonAscii index)
    let some d := symbol? c | throw (.badSymbol c index)
    return d :: (← symbols (index + 1) cs)

def ofSymbols (ds : List Nat) : Bytes :=
  let zeros := (ds.takeWhile (· = 0)).length
  let n := ofDigits 58 ds.reverse
  List.replicate zeros 0 ++ ((digits 256 n).map UInt8.ofNat).reverse

def decode (s : String) : Except Base58Error Bytes :=
  (symbols 0 (Utf8.encode s)).map ofSymbols

end Base58

end BitcoinTx
