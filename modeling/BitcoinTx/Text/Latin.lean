import BitcoinTx.Bytes.Basic

/-! Single bytes in messages, read as Latin-1 characters between single quotes. Control characters,
the no-break space and the soft hyphen are written as `\u` escapes. -/

namespace BitcoinTx.Text

def hexDigit (n : Nat) : Char := "0123456789abcdef".toList.getD n '0'

private def escaped (b : UInt8) : String :=
  let digits := if b < 16 then [hexDigit b.toNat] else [hexDigit (b.toNat / 16), hexDigit (b.toNat % 16)]
  "\\u\x7b" ++ String.ofList digits ++ "\x7d"

def quoteByte (b : UInt8) : String :=
  let body :=
    if b = 0 then "\\0"
    else if b = 9 then "\\t"
    else if b = 10 then "\\n"
    else if b = 13 then "\\r"
    else if b = 0x27 then "\\'"
    else if b = 0x5c then "\\\\"
    else if b < 0x20 ∨ (0x7f ≤ b ∧ b ≤ 0xa0) ∨ b = 0xad then escaped b
    else (Char.ofNat b.toNat).toString
  "'" ++ body ++ "'"

end BitcoinTx.Text
