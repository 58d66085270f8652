import BitcoinTx.Json.Basic
import BitcoinTx.Text.Hex

/-! JSON texts as tokens. -/

namespace BitcoinTx

inductive JsonToken where
  | beginArray
  | endArray
  | beginObject
  | endObject
  | comma
  | colon
  | null
  | bool (b : Bool)
  | number (digits : List Char)
  | text (t : JsonText)

namespace JsonToken

def isBlank (c : Char) : Bool := c = ' ' || c = '\t' || c = '\n' || c = '\r'

def ofPunctuation? (c : Char) : Option JsonToken :=
  match c with
  | '[' => some beginArray
  | ']' => some endArray
  | '\x7b' => some beginObject
  | '\x7d' => some endObject
  | ',' => some comma
  | ':' => some colon
  | _ => none

/-- Whether `c` may stand in a number or in one of the names `null`, `true` and `false`. -/
def isWordChar (c : Char) : Bool := c.isAlphanum || c = '+' || c = '-' || c = '.'

def isDigits (l : List Char) : Bool := !l.isEmpty && l.all Char.isDigit

/-- What may follow the fraction of a number: nothing, or an exponent. -/
def isExponent : List Char → Bool
  | [] => true
  | e :: '+' :: l | e :: '-' :: l | e :: l => (e = 'e' || e = 'E') && isDigits l

/-- What may follow the digits before the point. -/
def isFraction : List Char → Bool
  | '.' :: l => isDigits (l.takeWhile Char.isDigit) && isExponent (l.dropWhile Char.isDigit)
  | l => isExponent l

def isUnsigned (l : List Char) : Bool :=
  let digits := l.takeWhile Char.isDigit
  isDigits digits && (digits.length = 1 || digits.head? ≠ some '0') && isFraction (l.dropWhile Char.isDigit)

def isNumber : List Char → Bool
  | '-' :: l => isUnsigned l
  | l => isUnsigned l

def ofWord? (l : List Char) : Option JsonToken :=
  if l = "null".toList then some null
  else if l = "true".toList then some (bool true)
  else if l = "false".toList then some (bool false)
  else if isNumber l then some (number l)
  else none

def ofEscape? (c : Char) : Option Char :=
  match c with
  | '"' => some '"'
  | '\\' => some '\\'
  | '/' => some '/'
  | 'b' => some '\x08'
  | 'f' => some '\x0c'
  | 'n' => some '\n'
  | 'r' => some '\r'
  | 't' => some '\t'
  | _ => none

def hexValue? (c : Char) : Option Nat :=
  if c.toNat < 0x80 then (Hex.digit? (.ofNat c.toNat)).map (·.toNat) else none

def unitOfDigits? (digits : List Char) : Option UInt16 :=
  (digits.mapM hexValue?).map fun l => .ofNat (l.foldl (16 * · + ·) 0)

mutual

def scan : List Char → Option (List JsonToken)
  | [] => some []
  | c :: rest =>
    if isBlank c then scan rest
    else if c = '"' then scanText [] rest
    else if isWordChar c then scanWord [c] rest
    else
      match ofPunctuation? c with
      | some t => (t :: ·) <$> scan rest
      | none => none
termination_by l => (l.length, 0)

/-- Goes on in a string of which `done` has been read, in reverse. -/
def scanText (done : JsonText) : List Char → Option (List JsonToken)
  | [] => none
  | '"' :: rest => (text done.reverse :: ·) <$> scan rest
  | '\\' :: 'u' :: a :: b :: c :: d :: rest =>
    match unitOfDigits? [a, b, c, d] with
    | some u => scanText (.unit u :: done) rest
    | none => none
  | '\\' :: c :: rest =>
    match ofEscape? c with
    | some x => scanText (.char x :: done) rest
    | none => none
  | c :: rest => if c = '\\' ∨ c.toNat < 0x20 then none else scanText (.char c :: done) rest
termination_by l => (l.length, 0)

/-- Goes on in a word of which `done` has been read, in reverse. -/
def scanWord (done : List Char) : List Char → Option (List JsonToken)
  | c :: rest =>
    if isWordChar c then scanWord (c :: done) rest
    else
      match ofWord? done.reverse with
      | some t => (t :: ·) <$> scan (c :: rest)
      | none => none
  | [] => (fun t => [t]) <$> ofWord? done.reverse
termination_by l => (l.length, 1)

end

end JsonToken

end BitcoinTx
