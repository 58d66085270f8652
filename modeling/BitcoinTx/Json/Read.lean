import BitcoinTx.Json.Token

/-! Reading JSON values from tokens. The containers that are open are held in a list, innermost first,
each with what it has so far in reverse. -/

namespace BitcoinTx

inductive JsonFrame where
  | array (items : List JsonValue)
  /-- An object, and the name of the field whose value comes next. -/
  | object (fields : List (JsonText × JsonValue)) (name : JsonText)

namespace JsonValue

mutual

def readValue (frames : List JsonFrame) : List JsonToken → Option JsonValue
  | .null :: rest => readRest null frames rest
  | .bool b :: rest => readRest (bool b) frames rest
  | .number digits :: rest => readRest (number digits) frames rest
  | .text t :: rest => readRest (text t) frames rest
  | .beginArray :: .endArray :: rest => readRest (array []) frames rest
  | .beginArray :: rest => readValue (.array [] :: frames) rest
  | .beginObject :: .endObject :: rest => readRest (object []) frames rest
  | .beginObject :: .text name :: .colon :: rest => readValue (.object [] name :: frames) rest
  | _ => none
termination_by l => l.length

def readRest (v : JsonValue) (frames : List JsonFrame) : List JsonToken → Option JsonValue
  | [] => if frames.isEmpty then some v else none
  | token :: rest =>
    match token, frames with
    | .comma, .array items :: frames => readValue (.array (v :: items) :: frames) rest
    | .endArray, .array items :: frames => readRest (array (v :: items).reverse) frames rest
    | .comma, .object fields name :: frames =>
      match rest with
      | .text next :: .colon :: rest => readValue (.object ((name, v) :: fields) next :: frames) rest
      | _ => none
    | .endObject, .object fields name :: frames =>
      readRest (object ((name, v) :: fields).reverse) frames rest
    | _, _ => none
termination_by l => l.length

end

def ofText? (s : String) : Option JsonValue := JsonToken.scan s.toList >>= readValue []

end JsonValue

end BitcoinTx
