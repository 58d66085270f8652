import BitcoinTx.Bytes.Endian

/-! What the two hash functions share: padding a message to whole blocks of sixteen 32-bit words. -/

namespace BitcoinTx.Digest

def rotateLeft (x : UInt32) (n : UInt32) : UInt32 := (x <<< n) ||| (x >>> (32 - n))

def rotateRight (x : UInt32) (n : UInt32) : UInt32 := (x >>> n) ||| (x <<< (32 - n))

/-- The message, a one bit, and zeros up to eight bytes before the end of a block. -/
def pad (message : Bytes) : Bytes :=
  message ++ 0x80 :: List.replicate ((119 - message.length % 64) % 64) 0

def words (word : UInt8 → UInt8 → UInt8 → UInt8 → UInt32) : Bytes → List UInt32
  | a :: b :: c :: d :: rest => word a b c d :: words word rest
  | _ => []

def leWord (a b c d : UInt8) : UInt32 :=
  a.toUInt32 ||| (b.toUInt32 <<< 8) ||| (c.toUInt32 <<< 16) ||| (d.toUInt32 <<< 24)

def beWord (a b c d : UInt8) : UInt32 := leWord d c b a

def foldBlocks {α : Type} (f : α → List UInt32 → α) : Nat → α → List UInt32 → α
  | 0, state, _ => state
  | n + 1, state, ws => foldBlocks f n (f state (ws.take 16)) (ws.drop 16)

end BitcoinTx.Digest
