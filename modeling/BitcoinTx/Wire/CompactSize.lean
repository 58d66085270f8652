import BitcoinTx.Bytes.Endian

/-! The variable-length integers of the wire format: one byte below `0xfd`, else a marker byte and
the number on two, four or eight bytes. -/

namespace BitcoinTx.CompactSize

def encode (n : Nat) : Bytes :=
  if n < 0xfd then [UInt8.ofNat n]
  else if n < 0x10000 then 0xfd :: leBytes 2 n
  else if n < 0x100000000 then 0xfe :: leBytes 4 n
  else 0xff :: leBytes 8 n

def size (n : Nat) : Nat :=
  if n < 0xfd then 1 else if n < 0x10000 then 3 else if n < 0x100000000 then 5 else 9

def width (b : UInt8) : Nat :=
  if b = 0xff then 8 else if b = 0xfe then 4 else if b = 0xfd then 2 else 0

@[simp] theorem length_encode (n : Nat) : (encode n).length = size n := by
  simp only [encode, size]
  repeat' split
  all_goals simp

end BitcoinTx.CompactSize

namespace BitcoinTx

def sumOf {α : Type} (f : α → Nat) (l : List α) : Nat := l.foldr (fun x n => f x + n) 0

def varBytesSize (n : Nat) : Nat := CompactSize.size n + n

def varBytes (b : Bytes) : Bytes := CompactSize.encode b.length ++ b

@[simp] theorem length_varBytes (b : Bytes) : (varBytes b).length = varBytesSize b.length := by
  simp [varBytes, varBytesSize]

end BitcoinTx
