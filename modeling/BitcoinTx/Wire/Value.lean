import BitcoinTx.Wire.Reader

/-! Messages as sequences of wire values of any layout. -/

namespace BitcoinTx

inductive WireValue where
  | bytes (b : Bytes)
  | u8 (n : UInt8)
  | u16 (n : UInt16)
  | u32 (n : UInt32)
  | u64 (n : UInt64)
  | compactSize (n : UInt64)
  | varBytes (b : Bytes)
  | varText (s : String)
deriving DecidableEq

/-- What a reader has to know of a value to read it back. -/
inductive WireShape where
  | bytes (n : Nat)
  | u8
  | u16
  | u32
  | u64
  | compactSize
  | varBytes
  | varText
deriving DecidableEq

namespace WireValue

def shape : WireValue → WireShape
  | bytes b => .bytes b.length
  | u8 _ => .u8
  | u16 _ => .u16
  | u32 _ => .u32
  | u64 _ => .u64
  | compactSize _ => .compactSize
  | varBytes _ => .varBytes
  | varText _ => .varText

def encode : WireValue → Bytes
  | bytes b => b
  | u8 n => [n]
  | u16 n => leBytes 2 n.toNat
  | u32 n => leBytes 4 n.toNat
  | u64 n => leBytes 8 n.toNat
  | compactSize n => CompactSize.encode n.toNat
  | varBytes b => BitcoinTx.varBytes b
  | varText s => BitcoinTx.varBytes (Utf8.encode s)

def encodeAll (l : List WireValue) : Bytes := l.flatMap encode

end WireValue

namespace WireShape

def read : WireShape → Reader WireValue
  | bytes n => .bytes <$> Reader.take n
  | u8 => .u8 <$> Reader.u8
  | u16 => .u16 <$> Reader.u16
  | u32 => .u32 <$> Reader.u32
  | u64 => .u64 <$> Reader.u64
  | compactSize => (fun n => .compactSize (.ofNat n)) <$> Reader.compactSize
  | varBytes => .varBytes <$> Reader.varBytes
  | varText => .varText <$> Reader.varText

def readAll : List WireShape → Reader (List WireValue)
  | [] => return []
  | s :: l => do
    let v ← s.read
    return v :: (← readAll l)

end WireShape

end BitcoinTx
