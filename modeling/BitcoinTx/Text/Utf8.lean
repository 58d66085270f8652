import BitcoinTx.Bytes.Basic

/-! Text as UTF-8 bytes. Bytes that are not UTF-8 are refused with the length of the longest valid
start and of the offending sequence after it. -/

namespace BitcoinTx

inductive Utf8Error where
  /-- After `start` valid bytes come `count` bytes that no character starts with. -/
  | invalid (start count : Nat)
  /-- The input ends inside the character that begins at `start`. -/
  | incomplete (start : Nat)
deriving DecidableEq, Repr

def Utf8Error.message : Utf8Error → String
  | .invalid start count =>
    "invalid utf-8 sequence of " ++ toString count ++ " bytes from index " ++ toString start
  | .incomplete start => "incomplete utf-8 byte sequence from index " ++ toString start

namespace Utf8

def encode (s : String) : Bytes := s.toUTF8.data.toList

/-- What the current character still needs: a number of bytes, the next of them within a range. -/
structure Owed where
  count : Nat
  low : UInt8
  high : UInt8

def Owed.none : Owed := ⟨0, 0x80, 0xbf⟩

def Owed.after? (b : UInt8) : Option Owed :=
  if b ≤ 0x7f then some .none
  else if 0xc2 ≤ b ∧ b ≤ 0xdf then some ⟨1, 0x80, 0xbf⟩
  else if b = 0xe0 then some ⟨2, 0xa0, 0xbf⟩
  else if b = 0xed then some ⟨2, 0x80, 0x9f⟩
  else if 0xe1 ≤ b ∧ b ≤ 0xef then some ⟨2, 0x80, 0xbf⟩
  else if b = 0xf0 then some ⟨3, 0x90, 0xbf⟩
  else if 0xf1 ≤ b ∧ b ≤ 0xf3 then some ⟨3, 0x80, 0xbf⟩
  else if b = 0xf4 then some ⟨3, 0x80, 0x8f⟩
  else Option.none

/-- The first fault of `b`, when `seen` bytes of the character at `start` came before it and the
character owes `owed`. -/
def firstFault (start seen : Nat) (owed : Owed) : Bytes → Utf8Error
  | [] => .incomplete start
  | x :: xs =>
    if owed.count = 0 then
      match Owed.after? x with
      | some owed => firstFault (start + seen) 1 owed xs
      | none => .invalid (start + seen) 1
    else if owed.low ≤ x ∧ x ≤ owed.high then
      firstFault start (seen + 1) ⟨owed.count - 1, 0x80, 0xbf⟩ xs
    else .invalid start seen

def decode (b : Bytes) : Except Utf8Error String :=
  match String.fromUTF8? b.toByteArray with
  | some s => .ok s
  | none => .error (firstFault 0 0 .none b)

theorem toByteArray_encode (s : String) : (encode s).toByteArray = s.toByteArray :=
  ByteArray.ext (List.data_toByteArray ..)

theorem decode_ok_iff {b : Bytes} {s : String} : decode b = .ok s ↔ b = encode s := by
  constructor
  · intro h
    rw [decode, String.fromUTF8?] at h
    split at h
    next t ht =>
      cases h
      split at ht
      · cases ht
        exact List.toList_data_toByteArray.symm
      · contradiction
    next => contradiction
  · rintro rfl
    rw [decode, toByteArray_encode, String.fromUTF8?, dif_pos s.isValidUTF8]
    rfl

end Utf8

end BitcoinTx
