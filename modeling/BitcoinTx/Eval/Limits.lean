/-! The limits under which scripts run. -/

namespace BitcoinTx

/-- The defaults are those of legacy and version 0 witness scripts. -/
structure Limits where
  maxOps : Nat := 201
  maxStackSize : Nat := 1000
  maxScriptSize : Nat := 10000
  maxElementSize : Nat := 520
  maxNumberSize : Nat := 4
  maxMultisigKeys : Nat := 20
deriving DecidableEq, Repr

end BitcoinTx
