import BitcoinTx.Bytes.Digits
import BitcoinTx.Eval.Error

/-! Script numbers: least significant byte first, with the sign in the high bit of the last byte.
Zero is the empty string, and a number is written on as few bytes as hold it and its sign. -/

namespace BitcoinTx.ScriptNumber

/-- No number is read from more bytes, whatever the limit. -/
def maxSize : Nat := 8

def magnitude (n : Nat) : Bytes := (digits 256 n).map UInt8.ofNat

def encode (v : Int) : Bytes :=
  let m := magnitude v.natAbs
  match m.getLast? with
  | none => []
  | some last =>
    if 0x80 ≤ last then m ++ [if v < 0 then 0x80 else 0x00]
    else if v < 0 then m.dropLast ++ [last ||| 0x80]
    else m

def value (b : Bytes) : Int :=
  match b.getLast? with
  | none => 0
  | some last =>
    let m : Nat := leValue (b.dropLast ++ [last &&& 0x7f])
    if 0x80 ≤ last then -m else m

/-- Whether the last byte is needed: it holds a digit, or the sign of a digit byte whose own high bit
is taken. -/
def isMinimal (b : Bytes) : Bool :=
  match b.getLast? with
  | none => true
  | some last =>
    last &&& 0x7f ≠ 0 || match b.dropLast.getLast? with
      | none => false
      | some x => 0x80 ≤ x

def checkMinimal (b : Bytes) : Except EvalError Unit :=
  if isMinimal b then .ok () else .error (.numberNotMinimal b)

def decode (b : Bytes) (max : Nat) (requireMinimal : Bool) : Except EvalError Int :=
  if min max maxSize < b.length then .error (.numberSize b max)
  else if requireMinimal && !isMinimal b then .error (.numberNotMinimal b)
  else .ok (value b)

def clamp32 (v : Int) : Int := max (-0x80000000) (min v 0x7fffffff)

/-- A length as a signed number of 64 bits. -/
def ofLength (n : Nat) : Int := (Int64.ofNat n).toInt

def Fits (v : Int) : Prop := -0x8000000000000000 ≤ v ∧ v < 0x8000000000000000

instance (v : Int) : Decidable (Fits v) := inferInstanceAs (Decidable (-0x8000000000000000 ≤ v ∧ v < 0x8000000000000000))

/-- A byte string is true when it has a byte other than zero, a sign bit alone not counted. -/
def isTrue : Bytes → Bool
  | [] => false
  | [x] => x ≠ 0 && x ≠ 0x80
  | x :: xs => x ≠ 0 || isTrue xs

def ofBool (v : Bool) : Bytes := if v then [1] else []

end BitcoinTx.ScriptNumber
