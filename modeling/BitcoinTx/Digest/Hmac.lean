import BitcoinTx.Digest.Sha256

/-! HMAC over SHA-256. -/

namespace BitcoinTx.Hmac

def blockSize : Nat := 64

/-- The key on a whole block: hashed when longer, filled up with zeros. -/
def blockKey (key : Bytes) : Bytes :=
  let k := if blockSize < key.length then (Sha256.hash key).val else key
  k ++ List.replicate (blockSize - k.length) 0

def sha256 (key message : Bytes) : Hash256 :=
  let k := blockKey key
  let inner := Sha256.hash (k.map (· ^^^ 0x36) ++ message)
  Sha256.hash (k.map (· ^^^ 0x5c) ++ inner.val)

end BitcoinTx.Hmac
