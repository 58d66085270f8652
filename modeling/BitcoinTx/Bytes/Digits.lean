/-! Numbers in any base. -/

namespace BitcoinTx

/-- The digits of `n` in base `b`, least significant first; none for zero. -/
def digits (b : Nat) (n : Nat) : List Nat :=
  if h : 1 < b ∧ 0 < n then
    have : n / b < n := Nat.div_lt_self h.2 h.1
    n % b :: digits b (n / b)
  else []

def ofDigits (b : Nat) (ds : List Nat) : Nat := ds.foldr (fun d n => d + b * n) 0

end BitcoinTx
