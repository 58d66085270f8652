import BitcoinTx.Address.Network
import BitcoinTx.Crypto
import BitcoinTx.Script.Standard

/-! Addresses: a standard locking script and a network. -/

namespace BitcoinTx

structure Address where
  kind : AddressKind
  /-- The hash or the witness program. -/
  payload : Bytes
  network : Network
  payload_length : payload.length = kind.payloadSize
deriving DecidableEq

namespace Address

theorem payload_length_of (a : Address) {k : AddressKind} (h : a.kind = k) :
    a.payload.length = k.payloadSize := h ▸ a.payload_length

def create (kind : AddressKind) (payload : Bytes) (network : Network) : Except ScriptError Address :=
  if h : payload.length = kind.payloadSize then .ok ⟨kind, payload, network, h⟩
  else .error (.payloadSize kind payload.length)

def ofKeyHash (h : Hash160) (network : Network) : Address := ⟨.p2pkh, h.val, network, h.property⟩

def ofPublicKey [Crypto] (key : Bytes) (network : Network) : Address := ofKeyHash (hash160 key) network

def ofRedeem [Crypto] (redeem : Script) (network : Network) : Address :=
  let h := hash160 redeem.bytes
  ⟨.p2sh, h.val, network, h.property⟩

def lockingScript (a : Address) : Script :=
  match h : a.kind with
  | .p2pkh => .p2pkh ⟨a.payload, a.payload_length_of h⟩
  | .p2sh => .p2sh ⟨a.payload, a.payload_length_of h⟩
  | .p2wpkh | .p2wsh => .witnessProgram a.payload

end Address

/-- An address as its fields stand. The kind may have been set to one that the payload does not fit. -/
structure AddressFields where
  kind : AddressKind
  payload : Bytes
  network : Network
deriving DecidableEq

def Address.fields (a : Address) : AddressFields := ⟨a.kind, a.payload, a.network⟩

instance : Coe Address AddressFields := ⟨Address.fields⟩

namespace AddressFields

def hash (a : AddressFields) : Except ScriptError Hash160 :=
  match FixedBytes.ofBytes? 20 a.payload with
  | some h => .ok h
  | none => .error (.hashSize a.payload.length)

def lockingScript (a : AddressFields) : Except ScriptError Script :=
  match a.kind with
  | .p2pkh => a.hash.map .p2pkh
  | .p2sh => a.hash.map .p2sh
  | .p2wpkh | .p2wsh => Script.witnessV0 a.payload

end AddressFields

end BitcoinTx
