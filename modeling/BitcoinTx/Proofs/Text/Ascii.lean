import BitcoinTx.Text.Utf8
import Mathlib.Tactic.Lemma

/-! Text of ASCII characters, which has one byte for each character. -/

namespace BitcoinTx

lemma forall_byte {p : UInt8 → Prop} (h : ∀ n < 256, p (UInt8.ofNat n)) (x : UInt8) : p x := by
  have hx := h x.toNat x.toNat_lt
  rwa [UInt8.ofNat_toNat] at hx

lemma getD_of_idxOf? {α : Type} [BEq α] [LawfulBEq α] {l : List α} {a : α} {i : Nat}
    (h : l.idxOf? a = some i) (d : α) : i < l.length ∧ l.getD i d = a := by
  obtain ⟨hi, ha, -⟩ := List.findIdx?_eq_some_iff_getElem.mp h
  refine ⟨hi, ?_⟩
  rw [List.getD_eq_getElem?_getD, List.getElem?_eq_getElem hi, Option.getD_some, eq_of_beq ha]

namespace Utf8

def ofAscii (b : Bytes) : String := String.ofList (b.map (Char.ofNat ·.toNat))

variable {s t : String} {b : Bytes} {l : List Char}

lemma encode_inj (h : encode s = encode t) : s = t := by
  rw [encode, encode] at h
  exact String.toByteArray_inj.mp (ByteArray.ext (Array.toList_inj.mp h))

lemma encode_ofList (h : ∀ c ∈ l, c.toNat < 128) :
    encode (String.ofList l) = l.map Char.toUInt8 := by
  have hflat : encode (String.ofList l) = l.flatMap String.utf8EncodeChar := by
    simp [encode, List.utf8Encode]
  rw [hflat]
  clear hflat
  induction l with
  | nil => rfl
  | cons c l ih =>
    obtain ⟨hc, hl⟩ := List.forall_mem_cons.mp h
    have hsize : c.utf8Size = 1 :=
      Char.utf8Size_eq_one_iff.mpr (UInt32.le_iff_toNat_le.mpr (Nat.le_of_lt_succ hc))
    rw [List.flatMap_cons, List.map_cons, ih hl, String.utf8EncodeChar_eq_singleton hsize]
    rfl

lemma toNat_ofNat {n : Nat} (h : n < 128) : (Char.ofNat n).toNat = n := by
  have hall : ∀ n < 128, (Char.ofNat n).toNat = n := by decide
  exact hall n h

lemma toUInt8_ofNat {x : UInt8} (h : x.toNat < 128) : (Char.ofNat x.toNat).toUInt8 = x := by
  apply UInt8.toNat_inj.mp
  change (Char.ofNat x.toNat).toNat % 256 = x.toNat
  rw [toNat_ofNat h, Nat.mod_eq_of_lt x.toNat_lt]

lemma encode_ofAscii (h : ∀ x ∈ b, x.toNat < 128) : encode (ofAscii b) = b := by
  have hascii : ∀ c ∈ b.map (Char.ofNat ·.toNat), c.toNat < 128 := by
    refine List.forall_mem_map.mpr fun x hx => ?_
    rw [toNat_ofNat (h x hx)]
    exact h x hx
  rw [ofAscii, encode_ofList hascii, List.map_map]
  exact (List.map_congr_left fun x hx => toUInt8_ofNat (h x hx)).trans (List.map_id b)

lemma eq_ofAscii (h : ∀ x ∈ encode s, x.toNat < 128) : s = ofAscii (encode s) :=
  encode_inj (encode_ofAscii h).symm

lemma toList_eq (h : ∀ x ∈ encode s, x.toNat < 128) :
    s.toList = (encode s).map (Char.ofNat ·.toNat) :=
  (congrArg String.toList (eq_ofAscii h)).trans String.toList_ofList

lemma lt_of_mem_encode (h : ∀ c ∈ s.toList, c.toNat < 128) : ∀ x ∈ encode s, x.toNat < 128 := by
  have hencode := encode_ofList h
  rw [String.ofList_toList] at hencode
  rw [hencode]
  refine List.forall_mem_map.mpr fun c hc => ?_
  exact Nat.lt_of_le_of_lt (Nat.mod_le _ _) (h c hc)

lemma length_encode (s : String) : (encode s).length = s.utf8ByteSize := rfl

end Utf8

end BitcoinTx
