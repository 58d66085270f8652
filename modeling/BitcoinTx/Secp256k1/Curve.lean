import BitcoinTx.Bytes.Endian

/-! The curve `y ^ 2 = x ^ 3 + 7` over the field of `p` elements: points, the group law in Jacobian
coordinates, and the SEC1 forms of a point. -/

namespace BitcoinTx.Secp256k1

def p : Nat := 0xfffffffffffffffffffffffffffffffffffffffffffffffffffffffefffffc2f

def n : Nat := 0xfffffffffffffffffffffffffffffffebaaedce6af48a03bbfd25e8cd0364141

def halfOrder : Nat := n / 2

def powMod (m : Nat) (base exponent : Nat) : Nat :=
  if h : exponent = 0 then 1 % m
  else
    have : exponent / 2 < exponent := Nat.div_lt_self (Nat.pos_of_ne_zero h) (by decide)
    let half := powMod m base (exponent / 2)
    let square := half * half % m
    if exponent % 2 = 1 then square * base % m else square

def inverse (m a : Nat) : Nat := powMod m a (m - 2)

def sub (a b : Nat) : Nat := (a + (p - b % p)) % p

/-- A point other than the point at infinity. -/
structure Point where
  x : Nat
  y : Nat
deriving DecidableEq, Repr

def generator : Point where
  x := 0x79be667ef9dcbbac55a06295ce870b07029bfcdb2dce28d959f2815b16f81798
  y := 0x483ada7726a3c4655da4fbfc0e1108a8fd17b448a68554199c47d08ffb10d4b8

def OnCurve (x y : Nat) : Prop := x < p ∧ y < p ∧ y * y % p = (x * x * x + 7) % p

instance (x y : Nat) : Decidable (OnCurve x y) :=
  inferInstanceAs (Decidable (x < p ∧ y < p ∧ y * y % p = (x * x * x + 7) % p))

/-- The point `(x / z ^ 2, y / z ^ 3)`, or the point at infinity when `z` is zero. -/
structure Jacobian where
  x : Nat
  y : Nat
  z : Nat

namespace Jacobian

def infinity : Jacobian := ⟨1, 1, 0⟩

def ofPoint (q : Point) : Jacobian := ⟨q.x, q.y, 1⟩

def double (q : Jacobian) : Jacobian :=
  if q.z = 0 ∨ q.y = 0 then infinity
  else
    let yy := q.y * q.y % p
    let s := 4 * q.x * yy % p
    let m := 3 * q.x * q.x % p
    let x := sub (m * m) (2 * s)
    let y := sub (m * sub s x) (8 * yy * yy)
    ⟨x, y, 2 * q.y * q.z % p⟩

def add (q r : Jacobian) : Jacobian :=
  if q.z = 0 then r
  else if r.z = 0 then q
  else
    let qzz := q.z * q.z % p
    let rzz := r.z * r.z % p
    let u := q.x * rzz % p
    let v := r.x * qzz % p
    let s := q.y * rzz * r.z % p
    let t := r.y * qzz * q.z % p
    if u = v then
      if s = t then double q else infinity
    else
      let h := sub v u
      let d := sub t s
      let hh := h * h % p
      let hhh := h * hh % p
      let w := u * hh % p
      let x := sub (sub (d * d) hhh) (2 * w)
      let y := sub (d * sub w x) (s * hhh)
      ⟨x, y, h * q.z * r.z % p⟩

def mul (k : Nat) (q : Jacobian) : Jacobian :=
  if h : k = 0 then infinity
  else
    have : k / 2 < k := Nat.div_lt_self (Nat.pos_of_ne_zero h) (by decide)
    let r := double (mul (k / 2) q)
    if k % 2 = 1 then add r q else r

def toPoint? (q : Jacobian) : Option Point :=
  if q.z = 0 then none
  else
    let i := inverse p q.z
    let ii := i * i % p
    some ⟨q.x * ii % p, q.y * ii * i % p⟩

end Jacobian

namespace Point

/-- The point with coordinate `x` whose other coordinate is odd or not as asked. -/
def lift? (x : Nat) (odd : Bool) : Option Point :=
  let y := powMod p (x * x * x + 7) ((p + 1) / 4)
  let y := if (y % 2 = 1) = odd then y else sub 0 y
  if OnCurve x y then some ⟨x, y⟩ else none

def compressed (q : Point) : FixedBytes 33 :=
  ⟨(if q.y % 2 = 1 then 0x03 else 0x02) :: beBytes 32 q.x, by simp⟩

def uncompressed (q : Point) : FixedBytes 65 :=
  ⟨0x04 :: (beBytes 32 q.x ++ beBytes 32 q.y), by simp⟩

/-- Reads a point: tags `02` and `03` give the parity of the other coordinate, `05` stands for an
even one, and `04` is followed by both coordinates. -/
def ofBytes? : Bytes → Option Point
  | [] => none
  | tag :: b =>
    if b.length = 32 then
      if tag = 0x02 ∨ tag = 0x05 then lift? (beValue b) false
      else if tag = 0x03 then lift? (beValue b) true
      else none
    else if b.length = 64 ∧ tag = 0x04 then
      let x := beValue (b.take 32)
      let y := beValue (b.drop 32)
      if OnCurve x y then some ⟨x, y⟩ else none
    else none

end Point

end BitcoinTx.Secp256k1
