import BitcoinTx.Crypto

/-! Wallet import format: a network byte, the key, a flag for compressed public keys and a checksum,
as Base58. -/

namespace BitcoinTx.SecretKey

variable [Crypto]

def mainnetWif : UInt8 := 0x80

def testnetWif : UInt8 := 0xef

def compressedFlag : UInt8 := 0x01

/-- The form for compressed public keys. -/
def toWif (k : SecretKey) (network : UInt8) : String :=
  let payload := network :: k.bytes.val ++ [compressedFlag]
  Base58.encode (payload ++ checksum payload)

def wifPayloadSize (b : Bytes) : Except DataError Nat :=
  if b.length = 38 then
    if b[33]? = some compressedFlag then .ok 34 else .error .wifCompressionFlag
  else if b.length = 37 then .ok 33
  else .error (.wifSize b.length)

/-- Reads both forms, whatever the network byte. -/
def ofWif (text : String) : Except DataError SecretKey := do
  match Base58.decode text with
  | .error e => throw (.wifText e)
  | .ok b =>
    let size ← wifPayloadSize b
    if checksum (b.take size) = b.drop size then ofBytes ((b.drop 1).take 32)
    else throw .checksum

end BitcoinTx.SecretKey
