import BitcoinTx.DataError
import BitcoinTx.Wire.CompactSize

/-! Reading wire values from the front of a byte string. The state is what is left to read; a read
that fails keeps what it has consumed. -/

namespace BitcoinTx

abbrev Reader := EStateM DataError Bytes

namespace Reader

def fixed (n : Nat) : Reader (FixedBytes n) := do
  let b ← get
  if h : n ≤ b.length then
    set (b.drop n)
    return ⟨b.take n, List.length_take_of_le h⟩
  else throw (.endOfData n b.length)

def take (n : Nat) : Reader Bytes := Subtype.val <$> fixed n

def peek : Reader UInt8 := do
  match ← get with
  | x :: _ => return x
  | [] => throw (.endOfData 1 0)

def number (width : Nat) : Reader Nat := leValue <$> take width

def u8 : Reader UInt8 := UInt8.ofNat <$> number 1

def u16 : Reader UInt16 := UInt16.ofNat <$> number 2

def u32 : Reader UInt32 := UInt32.ofNat <$> number 4

def u64 : Reader UInt64 := UInt64.ofNat <$> number 8

def compactSize : Reader Nat := do
  let b ← u8
  if CompactSize.width b = 0 then return b.toNat else number (CompactSize.width b)

def varBytes : Reader Bytes := do
  take (← compactSize)

def varText : Reader String := do
  match Utf8.decode (← varBytes) with
  | .ok s => return s
  | .error e => throw (.utf8 e)

def replicate {ε α : Type} (n : Nat) (read : EStateM ε Bytes α) : EStateM ε Bytes (List α) :=
  match n with
  | 0 => return []
  | n + 1 => do
    let x ← read
    return x :: (← replicate n read)

end Reader

end BitcoinTx
