import BitcoinTx.Crypto
import BitcoinTx.Signature.Der

/-! Public keys, and signing with the secret half. -/

namespace BitcoinTx

variable [Crypto]

abbrev PublicKey : Type := Crypto.PublicKey

namespace PublicKey

def ofBytes (b : Bytes) : Except DataError PublicKey :=
  if b.isEmpty then .error .emptyPublicKey
  else
    match Crypto.parse? b with
    | some k => .ok k
    | none => .error .badPublicKey

def ofHex (text : String) : Except DataError PublicKey :=
  match Hex.decode text with
  | .error e => .error (.hex e)
  | .ok b => ofBytes b

def serialize (k : PublicKey) (compressed : Bool) : Bytes :=
  if compressed then (Crypto.compressed k).val else (Crypto.uncompressed k).val

def toHex (k : PublicKey) : String := Hex.encode (k.serialize true)

def Same (k l : PublicKey) : Prop := Crypto.compressed k = Crypto.compressed l

instance (k l : PublicKey) : Decidable (Same k l) :=
  inferInstanceAs (Decidable (Crypto.compressed k = Crypto.compressed l))

def hash160 (k : PublicKey) (compressed : Bool) : Hash160 := BitcoinTx.hash160 (k.serialize compressed)

def verify (k : PublicKey) (hash : Hash256) (sig : Signature) : Bool := Crypto.verify k hash sig

def verifyDer (k : PublicKey) (hash : Hash256) (der : Bytes) : Except DataError Unit :=
  match Signature.ofDer der with
  | .error e => .error (.der e)
  | .ok sig => if k.verify hash sig then .ok () else .error .signatureMismatch

end PublicKey

namespace SecretKey

def publicKey (k : SecretKey) : PublicKey := Crypto.publicKey k

/-- How a key is shown: only its public half. -/
def display (k : SecretKey) : String :=
  "PrivateKey \x7b pub_key: \"" ++ k.publicKey.toHex ++ "\" \x7d"

def sign (k : SecretKey) (hash : Hash256) : Except DataError Signature :=
  match Crypto.sign k hash with
  | some sig => .ok sig.normalize
  | none => .error .signingFailed

end SecretKey

end BitcoinTx
