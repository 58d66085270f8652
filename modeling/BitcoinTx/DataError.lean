import BitcoinTx.Text.Base58
import BitcoinTx.Text.Hex
import BitcoinTx.Text.Utf8

/-! Why bytes or text do not stand for a key, a signature, a hash or a wire value. -/

namespace BitcoinTx

inductive DerError where
  | size
  | header
  | contentSize
  | badR
  | badS
  | trailing
deriving DecidableEq, Repr

def DerError.message : DerError → String
  | .size => "bad length"
  | .header => "no header magic"
  | .contentSize => "length does not match content"
  | .badR => "bogus R"
  | .badS => "bogus S"
  | .trailing => "trailing bytes"

inductive DataError where
  | emptySecretKey
  | secretKeySize (got : Nat)
  /-- The scalar is zero or not below the group order. -/
  | secretKeyRange
  | emptyPublicKey
  | badPublicKey
  | der (cause : DerError)
  | signatureMismatch
  | signingFailed
  | wifText (cause : Base58Error)
  | wifCompressionFlag
  | wifSize (got : Nat)
  | checksum
  | hex (cause : HexError)
  | utf8 (cause : Utf8Error)
  | txidTextSize
  | txidSize (got : Nat)
  | endOfData (needed remaining : Nat)
deriving DecidableEq, Repr

def DataError.message : DataError → String
  | .emptySecretKey => "invalid private key: private key hex is empty"
  | .secretKeySize got => "invalid key length: expected 32, got " ++ toString got
  | .secretKeyRange => "invalid private key: signature error"
  | .emptyPublicKey => "invalid public key: pubkey bytes are empty"
  | .badPublicKey => "invalid public key: signature error"
  | .der cause => "invalid signature: malformed signature: " ++ cause.message
  | .signatureMismatch => "invalid signature: signature does not match public key"
  | .signingFailed => "invalid signature: signature error"
  | .wifText cause => "invalid WIF format: " ++ cause.message
  | .wifCompressionFlag => "invalid WIF format: malformed private key: invalid compression flag"
  | .wifSize got => "invalid WIF format: malformed private key: invalid length " ++ toString got
  | .checksum => "checksum mismatch"
  | .hex cause => "invalid hex: " ++ cause.message
  | .utf8 cause => "invalid utf-8: " ++ cause.message
  | .txidTextSize => "invalid hash: max hash string length is 64 bytes"
  | .txidSize got => "invalid hash: invalid hash length of " ++ toString got ++ ", want 32"
  | .endOfData needed remaining =>
    "unexpected end of data: need " ++ toString needed ++ " bytes, have " ++ toString remaining

end BitcoinTx
