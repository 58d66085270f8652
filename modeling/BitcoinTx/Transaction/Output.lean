import BitcoinTx.Script.Basic
import BitcoinTx.Wire.CompactSize

/-! Outputs: a value and the script that locks it. -/

namespace BitcoinTx

structure Output where
  value : UInt64
  script : Script
deriving DecidableEq

namespace Output

def encode (o : Output) : Bytes := leBytes 8 o.value.toNat ++ varBytes o.script.bytes

def size (o : Output) : Nat := 8 + varBytesSize o.script.size

def isData (o : Output) : Bool := o.script.isData

@[simp] theorem length_encode (o : Output) : o.encode.length = o.size := by
  simp [encode, size, Script.size]

end Output

end BitcoinTx
