import BitcoinTx.Text.Latin

/-! JSON values, and how they are written: without blanks, object fields in the order in which they
are held. Strings and numbers are held as they stand in the text. -/

namespace BitcoinTx

/-- A part of a string: a character, or a UTF-16 unit written as `\u` and four digits. -/
inductive JsonChar where
  | char (c : Char)
  | unit (u : UInt16)
deriving DecidableEq, Repr

abbrev JsonText := List JsonChar

namespace JsonText

def ofString (s : String) : JsonText := s.toList.map .char

def isHighSurrogate (u : UInt16) : Bool := 0xd800 ≤ u && u < 0xdc00

def isLowSurrogate (u : UInt16) : Bool := 0xdc00 ≤ u && u < 0xe000

def ofSurrogates (high low : UInt16) : Char :=
  Char.ofNat (0x10000 + (high.toNat - 0xd800) * 0x400 + (low.toNat - 0xdc00))

/-- The characters of a string; none when a surrogate stands alone. -/
def toChars? : JsonText → Option (List Char)
  | [] => some []
  | .char c :: rest => (c :: ·) <$> toChars? rest
  | .unit u :: rest =>
    if isLowSurrogate u then none
    else if isHighSurrogate u then
      match rest with
      | .unit low :: rest =>
        if isLowSurrogate low then (ofSurrogates u low :: ·) <$> toChars? rest else none
      | _ => none
    else (Char.ofNat u.toNat :: ·) <$> toChars? rest

def toString? (t : JsonText) : Option String := t.toChars?.map String.ofList

def fourDigits (n : Nat) : List Char :=
  [n / 0x1000, n / 0x100 % 16, n / 0x10 % 16, n % 16].map Text.hexDigit

/-- Quotes, backslashes and control characters are escaped, those with a letter of their own by
that. -/
def escape (c : Char) : List Char :=
  match c.toNat with
  | 0x22 => ['\\', '"']
  | 0x5c => ['\\', '\\']
  | 0x08 => ['\\', 'b']
  | 0x09 => ['\\', 't']
  | 0x0a => ['\\', 'n']
  | 0x0c => ['\\', 'f']
  | 0x0d => ['\\', 'r']
  | n => if n < 0x20 then '\\' :: 'u' :: fourDigits n else [c]

def render (t : JsonText) : List Char :=
  '"' :: t.flatMap (fun
    | .char c => escape c
    | .unit u => '\\' :: 'u' :: fourDigits u.toNat) ++ ['"']

end JsonText

inductive JsonValue where
  | null
  | bool (b : Bool)
  | number (digits : List Char)
  | text (t : JsonText)
  | array (items : List JsonValue)
  | object (fields : List (JsonText × JsonValue))

namespace JsonValue

def ofNat (n : Nat) : JsonValue := .number (Nat.toDigits 10 n)

def ofString (s : String) : JsonValue := .text (.ofString s)

def ofOption {α : Type} (f : α → JsonValue) : Option α → JsonValue
  | some a => f a
  | none => .null

def record (fields : List (String × JsonValue)) : JsonValue :=
  .object (fields.map fun (name, v) => (JsonText.ofString name, v))

def separate : List (List Char) → List Char
  | [] => []
  | [l] => l
  | l :: rest => l ++ ',' :: separate rest

mutual

def renderChars : JsonValue → List Char
  | null => "null".toList
  | bool true => "true".toList
  | bool false => "false".toList
  | number digits => digits
  | text t => t.render
  | array items => '[' :: separate (renderItems items) ++ [']']
  | object fields => '\x7b' :: separate (renderFields fields) ++ ['\x7d']

def renderItems : List JsonValue → List (List Char)
  | [] => []
  | v :: rest => renderChars v :: renderItems rest

def renderFields : List (JsonText × JsonValue) → List (List Char)
  | [] => []
  | (name, v) :: rest => (name.render ++ ':' :: renderChars v) :: renderFields rest

end

def render (v : JsonValue) : String := String.ofList v.renderChars

end JsonValue

end BitcoinTx
