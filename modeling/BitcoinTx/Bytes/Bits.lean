import BitcoinTx.Bytes.Basic

/-! Regrouping bits, most significant first, between bytes and groups of five. -/

namespace BitcoinTx.Bits

def ofNat (w n : Nat) : List Bool := (List.range w).reverse.map n.testBit

def toNat (l : List Bool) : Nat := l.foldl (fun n b => 2 * n + b.toNat) 0

def groups (w : Nat) (l : List Bool) : List (List Bool) :=
  if h : 0 < w ∧ w ≤ l.length then
    have hdrop : (l.drop w).length < l.length := by
      rw [List.length_drop]
      exact Nat.sub_lt_self h.1 h.2
    l.take w :: groups w (l.drop w)
  else []
termination_by l.length
decreasing_by exact hdrop

def fives (b : Bytes) : List Nat :=
  let bits := b.flatMap (ofNat 8 ·.toNat)
  (groups 5 (bits ++ List.replicate ((5 - bits.length % 5) % 5) false)).map toNat

/-- The bytes in groups of five bits; what does not fill a byte has to be zero and at most four
bits. -/
def ofFives? (l : List Nat) : Option Bytes :=
  let bits := l.flatMap (ofNat 5)
  let rest := bits.drop (bits.length / 8 * 8)
  if rest.length ≤ 4 ∧ true ∉ rest then some ((groups 8 bits).map (UInt8.ofNat <| toNat ·)) else none

end BitcoinTx.Bits
