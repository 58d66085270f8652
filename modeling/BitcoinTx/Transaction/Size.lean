import BitcoinTx.Transaction.Basic

/-! Sizes and weights, computed without writing the transaction. -/

namespace BitcoinTx

def weightOf (base witness : Nat) : Nat := 4 * base + witness

def virtualSizeOf (weight : Nat) : Nat := weight / 4

namespace Transaction

def baseSize (tx : Transaction) : Nat :=
  4 + CompactSize.size tx.inputs.length + sumOf Input.baseSize tx.inputs
    + CompactSize.size tx.outputs.length + sumOf Output.size tx.outputs + 4

/-- The size of the witness stacks, without marker and flag. -/
def witnessSize (tx : Transaction) : Nat :=
  if tx.hasWitness then sumOf Input.witnessSize tx.inputs else 0

def size (tx : Transaction) : Nat := tx.baseSize + tx.witnessSize

def weight (tx : Transaction) : Nat := weightOf tx.baseSize tx.witnessSize

def virtualSize (tx : Transaction) : Nat := virtualSizeOf tx.weight

def encodedSize (tx : Transaction) : Nat := if tx.hasWitness then tx.size + 2 else tx.size

/-- The virtual size of BIP 141, which counts marker and flag and rounds up. -/
def relayVirtualSize (tx : Transaction) : Nat := (3 * tx.baseSize + tx.encodedSize + 3) / 4

end Transaction

end BitcoinTx
