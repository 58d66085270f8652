import BitcoinTx.Secp256k1.Curve

/-! ECDSA signatures. The components are any 32 bytes; that they are scalars is for the verifier to
check. -/

namespace BitcoinTx

structure Signature where
  r : FixedBytes 32
  s : FixedBytes 32
deriving DecidableEq

namespace Signature

def High (s : FixedBytes 32) : Prop := Secp256k1.halfOrder < s.toNat

instance (s : FixedBytes 32) : Decidable (High s) :=
  inferInstanceAs (Decidable (Secp256k1.halfOrder < s.toNat))

def negate (s : FixedBytes 32) : FixedBytes 32 := .ofNat 32 (Secp256k1.n + 1 <<< 256 - s.toNat)

/-- The one of `s` and its negation that is not above half the order. -/
def low (s : FixedBytes 32) : FixedBytes 32 := if High s then negate s else s

def normalize (sig : Signature) : Signature := { sig with s := low sig.s }

end Signature

end BitcoinTx
