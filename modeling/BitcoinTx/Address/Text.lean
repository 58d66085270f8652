import BitcoinTx.Address.Basic
import BitcoinTx.Text.Base58
import BitcoinTx.Text.Bech32

/-! Addresses as text: Base58 with a checksum for hashes, Bech32 for witness programs. -/

namespace BitcoinTx.Address

variable [Crypto]

def encodeBase58 (version : UInt8) (payload : Bytes) : String :=
  let b := version :: payload
  Base58.encode (b ++ checksum b)

/-- The text for a network, which need not be that of the address. -/
def toText (a : Address) (network : Network) : String :=
  match a.kind with
  | .p2pkh => encodeBase58 network.p2pkhVersion a.payload
  | .p2sh => encodeBase58 network.p2shVersion a.payload
  | .p2wpkh | .p2wsh => Bech32.encode ⟨network.hrp, 0, a.payload⟩

def ofSegwit (text : String) (s : SegwitProgram) : Except ScriptError Address :=
  match Network.all.find? (·.hrp = s.hrp) with
  | none => .error (.unsupportedAddress text)
  | some network =>
    if s.version ≠ 0 then .error (.unsupportedAddress text)
    else create (if s.program.length = 20 then .p2wpkh else .p2wsh) s.program network

def ofVersion? (version : UInt8) : Option (AddressKind × Network) :=
  if version = 0x00 then some (.p2pkh, .mainnet)
  else if version = 0x05 then some (.p2sh, .mainnet)
  else if version = 0x6f then some (.p2pkh, .testnet)
  else if version = 0xc4 then some (.p2sh, .testnet)
  else none

def ofBase58 (text : String) : Except ScriptError Address :=
  match Base58.decode text with
  | .error _ => .error (.addressAlphabet text)
  | .ok b =>
    if b.length ≠ 25 then .error (.addressSize text b.length)
    else if b.drop 21 ≠ checksum (b.take 21) then .error .addressChecksum
    else
      match ofVersion? (b.headD 0) with
      | none => .error (.unsupportedAddress text)
      | some (kind, network) => create kind ((b.drop 1).take 20) network

/-- Reads either form. Base58 versions that two networks share are taken for the test network. -/
def ofText (text : String) : Except ScriptError Address :=
  match Bech32.decode text with
  | some s => ofSegwit text s
  | none => ofBase58 text

end BitcoinTx.Address
