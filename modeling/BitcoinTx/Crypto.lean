import BitcoinTx.Digest.Ripemd160
import BitcoinTx.Digest.Sha256
import BitcoinTx.Secp256k1.Ecdsa

/-! The hash functions and the signature scheme, as parameters: nothing that scripts or transactions
do depends on which functions they are. `Crypto.bitcoin` is the choice Bitcoin makes. -/

namespace BitcoinTx

class Crypto where
  sha256 : Bytes → Hash256
  ripemd160 : Bytes → Hash160
  PublicKey : Type
  parse? : Bytes → Option PublicKey
  compressed : PublicKey → FixedBytes 33
  uncompressed : PublicKey → FixedBytes 65
  publicKey : SecretKey → PublicKey
  sign : SecretKey → Hash256 → Option Signature
  verify : PublicKey → Hash256 → Signature → Bool
  /-- Signatures are made of scalars. -/
  sign_s_lt : ∀ {key hash sig}, sign key hash = some sig → sig.s.toNat < Secp256k1.n

@[reducible] def Crypto.bitcoin : Crypto where
  sha256 := Sha256.hash
  ripemd160 := Ripemd160.hash
  PublicKey := Secp256k1.Point
  parse? := Secp256k1.Point.ofBytes?
  compressed := Secp256k1.Point.compressed
  uncompressed := Secp256k1.Point.uncompressed
  publicKey k := (Secp256k1.publicPoint? k.toNat).getD Secp256k1.generator
  sign := Secp256k1.sign
  verify := Secp256k1.verify
  sign_s_lt := Secp256k1.sign_s_lt

variable [Crypto]

def sha256 (b : Bytes) : Hash256 := Crypto.sha256 b

def ripemd160 (b : Bytes) : Hash160 := Crypto.ripemd160 b

def sha256d (b : Bytes) : Hash256 := sha256 (sha256 b).val

def hash160 (b : Bytes) : Hash160 := ripemd160 (sha256 b).val

def checksum (b : Bytes) : Bytes := (sha256d b).val.take 4

theorem length_checksum (b : Bytes) : (checksum b).length = 4 := by
  rw [checksum, List.length_take, (sha256d b).property]
  rfl

end BitcoinTx
