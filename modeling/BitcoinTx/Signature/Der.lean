import BitcoinTx.DataError
import BitcoinTx.Signature.Basic

/-! The DER form of a signature: a sequence of two positive integers, each on as few bytes as keep
it positive. -/

namespace BitcoinTx.Signature

/-- The digits of a number without leading zeros, behind one zero byte where the first would read as
negative; zero is a single zero byte. -/
def canonical (b : Bytes) : Bytes :=
  match b.dropWhile (· = 0) with
  | [] => [0]
  | x :: xs => if 0x80 ≤ x then 0 :: x :: xs else x :: xs

def derInteger (b : Bytes) : Bytes := 0x02 :: UInt8.ofNat b.length :: b

def encode (sig : Signature) : Bytes :=
  let content := derInteger (canonical sig.r.val) ++ derInteger (canonical sig.s.val)
  0x30 :: UInt8.ofNat content.length :: content

def toDer (sig : Signature) : Bytes := sig.normalize.encode

/-- Whether digits are those of a positive number or zero, without a needless leading zero. -/
def minimal : Bytes → Bool
  | [] => false
  | [x] => x < 0x80
  | x :: y :: _ => x < 0x80 && !(x = 0 && y < 0x80)

def ofCanonical? (b : Bytes) : Option (FixedBytes 32) :=
  match b with
  | 0 :: rest => FixedBytes.ofTail? 32 rest
  | b => FixedBytes.ofTail? 32 b

def readInteger? : Bytes → Option (FixedBytes 32 × Bytes)
  | tag :: size :: rest =>
    if tag = 0x02 ∧ size.toNat ≤ rest.length ∧ minimal (rest.take size.toNat) then
      (ofCanonical? (rest.take size.toNat)).map (·, rest.drop size.toNat)
    else none
  | _ => none

def maxDerSize : Nat := 72

def ofDer (b : Bytes) : Except DerError Signature :=
  match b with
  | tag :: size :: content =>
    if b.length < 8 ∨ maxDerSize < b.length then .error .size
    else if tag ≠ 0x30 then .error .header
    else if size.toNat ≠ content.length then .error .contentSize
    else
      match readInteger? content with
      | none => .error .badR
      | some (r, rest) =>
        match readInteger? rest with
        | none => .error .badS
        | some (s, []) => .ok ⟨r, s⟩
        | some (_, _ :: _) => .error .trailing
  | _ => .error .size

end BitcoinTx.Signature
