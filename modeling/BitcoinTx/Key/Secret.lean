import BitcoinTx.DataError
import BitcoinTx.Secp256k1.Curve

/-! Secret keys: the scalars from one up to the group order. -/

namespace BitcoinTx

structure SecretKey where
  bytes : FixedBytes 32
  in_range : 0 < bytes.toNat ∧ bytes.toNat < Secp256k1.n
deriving DecidableEq

namespace SecretKey

def ofBytes (b : Bytes) : Except DataError SecretKey :=
  match FixedBytes.ofBytes? 32 b with
  | none => .error (.secretKeySize b.length)
  | some k =>
    if h : 0 < k.toNat ∧ k.toNat < Secp256k1.n then .ok ⟨k, h⟩ else .error .secretKeyRange

theorem ofBytes_ok_iff {b : Bytes} {k : SecretKey} : ofBytes b = .ok k ↔ b = k.bytes.val := by
  rw [ofBytes]
  constructor
  · intro h
    split at h
    · contradiction
    next hb =>
      split at h
      · cases h
        exact FixedBytes.ofBytes?_eq_some_iff.mp hb
      · contradiction
  · rintro rfl
    simp [k.in_range]

def ofHex (text : String) : Except DataError SecretKey :=
  if text.isEmpty then .error .emptySecretKey
  else
    match Hex.decode text with
    | .error e => .error (.hex e)
    | .ok b => ofBytes b

def toHex (k : SecretKey) : String := Hex.encode k.bytes.val

def toNat (k : SecretKey) : Nat := k.bytes.toNat

end SecretKey

end BitcoinTx
