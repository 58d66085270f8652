import BitcoinTx.Json.Read

/-! What JSON values hold: plain numbers, texts, and records with named fields. -/

namespace BitcoinTx.JsonValue

/-- A number without sign, fraction and exponent that is not above `max`. -/
def nat? (max : Nat) : JsonValue → Option Nat
  | number digits =>
    if JsonToken.isDigits digits then
      let n := digits.foldl (fun n c => 10 * n + (c.toNat - 0x30)) 0
      if n ≤ max then some n else none
    else none
  | _ => none

def u32? (v : JsonValue) : Option UInt32 := (v.nat? 0xffffffff).map .ofNat

def u64? (v : JsonValue) : Option UInt64 := (v.nat? 0xffffffffffffffff).map .ofNat

def bool? : JsonValue → Option Bool
  | bool b => some b
  | _ => none

def string? : JsonValue → Option String
  | text t => t.toString?
  | _ => none

/-- The values of the fields `names`, where there are any. An array stands for a record with these
fields in order; an object may have further fields, but none of these twice. -/
def fields? (names : List String) : JsonValue → Option (List (Option JsonValue))
  | array items =>
    if items.length ≤ names.length then some ((List.range names.length).map (items[·]?)) else none
  | object fields => do
    let fields ← fields.mapM fun (name, v) => name.toString?.map (·, v)
    if names.any fun name => 1 < fields.countP (·.1 = name) then none
    return names.map fun name => (fields.find? (·.1 = name)).map (·.2)
  | _ => none

def orDefault {α : Type} (default : α) (f : JsonValue → Option α) : Option JsonValue → Option α
  | none => some default
  | some v => f v

def nullable {α : Type} (f : JsonValue → Option α) : JsonValue → Option (Option α)
  | null => some none
  | v => (f v).map some

end BitcoinTx.JsonValue
