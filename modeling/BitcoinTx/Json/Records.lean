import BitcoinTx.Builder.Settings
import BitcoinTx.Eval.Limits
import BitcoinTx.Json.Fields
import BitcoinTx.Transaction.Outpoint

/-! The JSON forms of scripts, ids, coins and settings. Fields are written in alphabetical order. -/

namespace BitcoinTx

open JsonValue

namespace Network

/-- The name, or an object with the name as its only field and `null` for its value. -/
def ofJson? : JsonValue → Option Network
  | .object [(name, .null)] => name.toString? >>= ofName?
  | v => v.string? >>= ofName?

def toJson (n : Network) : JsonValue := .ofString n.name

end Network

namespace Script

def ofJson? (v : JsonValue) : Option Script := v.string? >>= fun s => (ofHex s).toOption

def toJson (s : Script) : JsonValue := .ofString s.toHex

end Script

namespace Txid

def ofJson? (v : JsonValue) : Option Txid := v.string? >>= fun s => (ofHex s).toOption

def toJson (t : Txid) : JsonValue := .ofString t.toHex

end Txid

namespace Outpoint

def ofJson? (v : JsonValue) : Option Outpoint := do
  match ← v.fields? ["txid", "index"] with
  | [some txid, some index] => return ⟨← Txid.ofJson? txid, ← index.u32?⟩
  | _ => none

def toJson (o : Outpoint) : JsonValue :=
  .record [("index", .ofNat o.index.toNat), ("txid", o.txid.toJson)]

end Outpoint

namespace Coin

def ofJson? (v : JsonValue) : Option Coin := do
  match ← v.fields? ["outpoint", "value", "locking_script_hex"] with
  | [some outpoint, some value, some script] =>
    return ⟨← Outpoint.ofJson? outpoint, ← value.u64?, ← script.string?⟩
  | _ => none

def toJson (c : Coin) : JsonValue :=
  .record [("locking_script_hex", .ofString c.lockingHex), ("outpoint", c.outpoint.toJson),
    ("value", .ofNat c.value.toNat)]

end Coin

namespace Limits

def ofJson? (v : JsonValue) : Option Limits := do
  let names := ["max_ops", "max_stack_size", "max_script_size", "max_script_element_size",
    "max_script_number_length", "max_pub_keys_per_multisig"]
  let limit (default : Nat) := orDefault default (nat? 0xffffffffffffffff)
  let d : Limits := {}
  match ← v.fields? names with
  | [ops, stack, script, element, size, keys] =>
    return { maxOps := ← limit d.maxOps ops
             maxStackSize := ← limit d.maxStackSize stack
             maxScriptSize := ← limit d.maxScriptSize script
             maxElementSize := ← limit d.maxElementSize element
             maxNumberSize := ← limit d.maxNumberSize size
             maxMultisigKeys := ← limit d.maxMultisigKeys keys }
  | _ => none

def toJson (l : Limits) : JsonValue :=
  .record [("max_ops", .ofNat l.maxOps), ("max_pub_keys_per_multisig", .ofNat l.maxMultisigKeys),
    ("max_script_element_size", .ofNat l.maxElementSize),
    ("max_script_number_length", .ofNat l.maxNumberSize), ("max_script_size", .ofNat l.maxScriptSize),
    ("max_stack_size", .ofNat l.maxStackSize)]

end Limits

namespace BuilderSettings

def ofJson? (v : JsonValue) : Option BuilderSettings := do
  let d : BuilderSettings := {}
  match ← v.fields? ["network", "relay_fee_per_kb", "max_fee", "send_fees", "sign"] with
  | [network, relayRate, maxFee, flatFee, sign] =>
    return { network := ← orDefault d.network Network.ofJson? network
             relayRate := ← orDefault d.relayRate (nullable u64?) relayRate
             maxFee := ← orDefault d.maxFee u64? maxFee
             flatFee := ← orDefault d.flatFee u64? flatFee
             sign := ← orDefault d.sign bool? sign }
  | _ => none

def toJson (s : BuilderSettings) : JsonValue :=
  .record [("max_fee", .ofNat s.maxFee.toNat), ("network", s.network.toJson),
    ("relay_fee_per_kb", .ofOption (.ofNat ·.toNat) s.relayRate),
    ("send_fees", .ofNat s.flatFee.toNat), ("sign", .bool s.sign)]

end BuilderSettings

end BitcoinTx
