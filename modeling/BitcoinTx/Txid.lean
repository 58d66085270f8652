import BitcoinTx.Crypto
import BitcoinTx.DataError

/-! Transaction ids. The bytes are held as they are hashed and written in reverse. -/

namespace BitcoinTx

structure Txid where
  bytes : Hash256
deriving DecidableEq

namespace Txid

def zero : Txid := ⟨.zero 32⟩

instance : Inhabited Txid := ⟨zero⟩

def ofBytes (b : Bytes) : Except DataError Txid :=
  match FixedBytes.ofBytes? 32 b with
  | some h => .ok ⟨h⟩
  | none => .error (.txidSize b.length)

/-- Reads up to 64 digits; those missing in front are zeros. -/
def ofHex (text : String) : Except DataError Txid :=
  let digits := Utf8.encode text
  if 64 < digits.length then .error .txidTextSize
  else
    match Hex.decodeBytes (if digits.length % 2 = 1 then 0x30 :: digits else digits) with
    | .error e => .error (.hex e)
    | .ok b =>
      match FixedBytes.ofTail? 32 b with
      | some h => .ok ⟨h.reverse⟩
      | none => .error .txidTextSize

def reversed (t : Txid) : Hash256 := t.bytes.reverse

def toHex (t : Txid) : String := Hex.encode t.reversed.val

def ofContent [Crypto] (b : Bytes) : Txid := ⟨sha256d b⟩

/-- Lexicographic order of the bytes as held. -/
def order (s t : Txid) : Ordering := compare s.bytes.toNat t.bytes.toNat

end Txid

end BitcoinTx
