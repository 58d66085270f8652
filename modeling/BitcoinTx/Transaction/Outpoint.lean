import BitcoinTx.Script.Standard
import BitcoinTx.Txid

/-! References to outputs of earlier transactions, and the coins they stand for. -/

namespace BitcoinTx

structure Outpoint where
  txid : Txid
  index : UInt32
deriving DecidableEq

namespace Outpoint

def size : Nat := 36

def null : Outpoint := ⟨.zero, 0xffffffff⟩

def toText (o : Outpoint) : String := o.txid.toHex ++ ":" ++ toString o.index.toNat

def encode (o : Outpoint) : Bytes := o.txid.bytes.val ++ leBytes 4 o.index.toNat

@[simp] theorem length_encode (o : Outpoint) : o.encode.length = size := by
  simp [encode, size, o.txid.bytes.property]

end Outpoint

structure Coin where
  outpoint : Outpoint
  value : UInt64
  /-- The locking script as text, read only when it is needed. -/
  lockingHex : String
deriving DecidableEq

def Coin.lockingScript (c : Coin) : Except ScriptError Script := Script.ofHex c.lockingHex

end BitcoinTx
