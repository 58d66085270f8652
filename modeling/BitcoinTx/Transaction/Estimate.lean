import BitcoinTx.Transaction.Size

/-! The size that a transaction will have once it is signed, and the fee for it. Every input counts as
spent with one compressed key and the longest signature; one whose coin is not known counts as no
witness input. -/

namespace BitcoinTx

/-- The longest DER signature and its hash type. -/
def maxSignatureSize : Nat := 73

def compressedKeySize : Nat := 33

def keyUnlockingSize : Nat := 1 + maxSignatureSize + 1 + compressedKeySize

def keyWitnessSize : Nat := 1 + (1 + maxSignatureSize) + (1 + compressedKeySize)

namespace Input

def estimateBase (i : Input) : Nat := sizeWith (if i.spendsWitness then 0 else keyUnlockingSize)

/-- An empty stack still has its count. -/
def estimateWitness (i : Input) : Nat := if i.spendsWitness then keyWitnessSize else 1

end Input

namespace Transaction

def estimateBase (tx : Transaction) : Nat :=
  4 + CompactSize.size tx.inputs.length + sumOf Input.estimateBase tx.inputs
    + CompactSize.size tx.outputs.length + sumOf Output.size tx.outputs + 4

def estimateWitness (tx : Transaction) : Nat :=
  if tx.inputs.any (·.spendsWitness) then sumOf Input.estimateWitness tx.inputs else 0

def estimateSize (tx : Transaction) : Nat :=
  virtualSizeOf (weightOf tx.estimateBase tx.estimateWitness)

end Transaction

/-- The fee for a virtual size, at a rate for 1000 bytes, rounded up. -/
def feeFor (size : Nat) (rate : UInt64) : Nat :=
  min Transaction.maxAmount ((rate.toNat * size + 999) / 1000)

end BitcoinTx
