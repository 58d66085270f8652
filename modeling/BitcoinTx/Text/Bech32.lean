import BitcoinTx.Bytes.Bits
import BitcoinTx.Text.Utf8

/-! Witness programs as text: a human-readable part, the separator `1`, and the version, the program
and a checksum of six symbols, five bits each. Version 0 has one checksum constant and the later
versions another. -/

namespace BitcoinTx

/-- A witness program with the human-readable part it is written behind. -/
structure SegwitProgram where
  /-- ASCII, in lower case. -/
  hrp : Bytes
  version : Nat
  program : Bytes
deriving DecidableEq

namespace Bech32

def alphabet : Bytes := Utf8.encode "qpzry9x8gf2tvdw0s3jn54khce6mua7l"

def generators : List UInt32 := [0x3b6a57b2, 0x26508e6d, 0x1ea119fa, 0x3d4233dd, 0x2a1462b3]

def polymodStep (state : UInt32) (symbol : Nat) : UInt32 :=
  let top := (state >>> 25).toNat
  let shifted := ((state &&& 0x1ffffff) <<< 5) ^^^ UInt32.ofNat symbol
  generators.zipIdx.foldl (fun s (g, i) => if top.testBit i then s ^^^ g else s) shifted

def polymod (symbols : List Nat) : UInt32 := symbols.foldl polymodStep 1

def expand (hrp : Bytes) : List Nat :=
  hrp.map (·.toNat / 32) ++ 0 :: hrp.map (·.toNat % 32)

/-- What the checksum of a version makes the polynomial come to. -/
def target (version : Nat) : UInt32 := if version = 0 then 1 else 0x2bc830a3

def checksum (hrp : Bytes) (version : Nat) (data : List Nat) : List Nat :=
  let c := polymod (expand hrp ++ data ++ List.replicate 6 0) ^^^ target version
  [25, 20, 15, 10, 5, 0].map fun i => (c.toNat >>> i) % 32

def encode (s : SegwitProgram) : String :=
  let data := s.version :: Bits.fives s.program
  let symbols := (data ++ checksum s.hrp s.version data).map (alphabet.getD · 0)
  String.ofList ((s.hrp ++ 0x31 :: symbols).map (Char.ofNat ·.toNat))

def isUpper (c : UInt8) : Bool := 0x41 ≤ c && c ≤ 0x5a

def isLower (c : UInt8) : Bool := 0x61 ≤ c && c ≤ 0x7a

def toLower (c : UInt8) : UInt8 := if isUpper c then c + 0x20 else c

def splitLast? (b : Bytes) : Option (Bytes × Bytes) :=
  match b.reverse.dropWhile (· ≠ 0x31) with
  | [] => none
  | _ :: hrp => some (hrp.reverse, (b.reverse.takeWhile (· ≠ 0x31)).reverse)

def validHrp (hrp : Bytes) : Bool :=
  0 < hrp.length && hrp.length ≤ 83 && hrp.all fun c => 0x21 ≤ c && c ≤ 0x7e

def validProgram (version : Nat) (program : Bytes) : Bool :=
  2 ≤ program.length && program.length ≤ 40
    && (version ≠ 0 || program.length = 20 || program.length = 32)

def decode (text : String) : Option SegwitProgram := do
  let b := Utf8.encode text
  if 90 < b.length ∨ (b.any isUpper ∧ b.any isLower) then none
  let (hrp, data) ← splitLast? (b.map toLower)
  if !validHrp hrp then none
  let symbols ← data.mapM alphabet.idxOf?
  let version ← symbols.head?
  if 16 < version ∨ symbols.length < 7 ∨ polymod (expand hrp ++ symbols) ≠ target version then none
  let program ← Bits.ofFives? ((symbols.drop 1).take (symbols.length - 7))
  if !validProgram version program then none
  return { hrp, version, program }

end Bech32

end BitcoinTx
