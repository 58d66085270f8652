import BitcoinTx.Proofs.Text.Ascii
import BitcoinTx.Text.Hex

/-! Bytes that are written in hexadecimal digits are read back, and digits that are read are written again,
in lower case. -/

namespace BitcoinTx.Hex

variable {b text : Bytes}

def hexDigits : List Char := "0123456789abcdef".toList

lemma hexDigit_mem (n : Nat) : Text.hexDigit n ∈ hexDigits := by
  rw [Text.hexDigit, List.getD_eq_getElem?_getD]
  cases hn : "0123456789abcdef".toList[n]? with
  | none => decide
  | some c => exact List.mem_of_getElem? hn

lemma toList_encode (b : Bytes) : (encode b).toList = b.flatMap encodeByte := String.toList_ofList

lemma mem_encode {c : Char} (h : c ∈ (encode b).toList) : c ∈ hexDigits := by
  rw [toList_encode, List.mem_flatMap] at h
  obtain ⟨x, -, hc⟩ := h
  rw [encodeByte, List.mem_cons, List.mem_singleton] at hc
  obtain rfl | rfl := hc
  · exact hexDigit_mem _
  · exact hexDigit_mem _

lemma length_encode (b : Bytes) : (encode b).toList.length = 2 * b.length := by
  simp [toList_encode, List.length_flatMap, encodeByte, List.map_const', Nat.mul_comm]

def byteDigits (x : UInt8) : Bytes := (encodeByte x).map Char.toUInt8

lemma utf8_encode (b : Bytes) : Utf8.encode (encode b) = b.flatMap byteDigits := by
  have hascii : hexDigits.all (·.toNat < 128) := by decide
  have hall : ∀ c ∈ b.flatMap encodeByte, c.toNat < 128 := by
    intro c hc
    rw [← toList_encode] at hc
    exact of_decide_eq_true (List.all_eq_true.mp hascii c (mem_encode hc))
  rw [encode, Utf8.encode_ofList hall, List.map_flatMap]
  rfl

lemma digit?_hexDigit {n : Nat} (h : n < 16) :
    digit? (Text.hexDigit n).toUInt8 = some (UInt8.ofNat n) := by
  have hall : ∀ n < 16, digit? (Text.hexDigit n).toUInt8 = some (UInt8.ofNat n) := by decide
  exact hall n h

lemma byteDigits_spec (x : UInt8) :
    byteDigits x = [(Text.hexDigit (x.toNat / 16)).toUInt8, (Text.hexDigit (x.toNat % 16)).toUInt8] ∧
      digit? (Text.hexDigit (x.toNat / 16)).toUInt8 = some (UInt8.ofNat (x.toNat / 16)) ∧
      digit? (Text.hexDigit (x.toNat % 16)).toUInt8 = some (UInt8.ofNat (x.toNat % 16)) := by
  have hx := x.toNat_lt
  exact ⟨rfl, digit?_hexDigit (by omega), digit?_hexDigit (by omega)⟩

lemma firstBad?_byteDigits (index : Nat) (b : Bytes) : firstBad? index (b.flatMap byteDigits) = none := by
  induction b generalizing index with
  | nil => rfl
  | cons x b ih =>
    obtain ⟨hx, hhi, hlo⟩ := byteDigits_spec x
    simp only [List.flatMap_cons, hx, List.cons_append, List.nil_append, firstBad?, hhi, hlo,
      Option.isSome_some, if_true, ih]

lemma pairUp_byteDigits (b : Bytes) : pairUp (b.flatMap byteDigits) = b := by
  induction b with
  | nil => rfl
  | cons x b ih =>
    obtain ⟨hx, hhi, hlo⟩ := byteDigits_spec x
    have hvalue : 16 * UInt8.ofNat (x.toNat / 16) + UInt8.ofNat (x.toNat % 16) = x := by
      have hlt := x.toNat_lt
      apply UInt8.toNat_inj.mp
      simp only [UInt8.toNat_add, UInt8.toNat_mul, UInt8.toNat_ofNat', UInt8.reduceToNat]
      omega
    simp only [List.flatMap_cons, hx, List.cons_append, List.nil_append, pairUp, hhi, hlo,
      Option.getD_some, hvalue, ih]

lemma length_utf8_encode (b : Bytes) : (Utf8.encode (encode b)).length = 2 * b.length := by
  rw [utf8_encode]
  simp [List.length_flatMap, byteDigits, encodeByte, List.map_const', Nat.mul_comm]

theorem decode_encode (b : Bytes) : decode (encode b) = .ok b := by
  have hlength := length_utf8_encode b
  rw [decode, decodeBytes, if_neg (by omega), utf8_encode, firstBad?_byteDigits, pairUp_byteDigits]

def IsDigit (c : Char) : Prop := c ∈ "0123456789abcdefABCDEF".toList

instance (c : Char) : Decidable (IsDigit c) := inferInstanceAs (Decidable (c ∈ _))

def lowerDigit (x : UInt8) : Char := (Char.ofNat x.toNat).toLower

lemma isSome_digit?_iff (x : UInt8) :
    (digit? x).isSome ↔ x.toNat < 128 ∧ IsDigit (Char.ofNat x.toNat) :=
  forall_byte (p := fun x => (digit? x).isSome ↔ x.toNat < 128 ∧ IsDigit (Char.ofNat x.toNat))
    (by decide +kernel) x

lemma hexDigit_of_digit? {x d : UInt8} (h : digit? x = some d) :
    d.toNat < 16 ∧ Text.hexDigit d.toNat = lowerDigit x := by
  have hall : ∀ x, (digit? x).all fun d => d.toNat < 16 ∧ Text.hexDigit d.toNat = lowerDigit x :=
    forall_byte (by decide +kernel)
  have hx := hall x
  rw [h] at hx
  exact of_decide_eq_true hx

lemma encodeByte_pair {hi lo d e : UInt8} (hd : digit? hi = some d) (he : digit? lo = some e) :
    encodeByte (16 * d + e) = [lowerDigit hi, lowerDigit lo] := by
  obtain ⟨hdlt, hdigit⟩ := hexDigit_of_digit? hd
  obtain ⟨helt, hedigit⟩ := hexDigit_of_digit? he
  have hvalue : (16 * d + e).toNat = 16 * d.toNat + e.toNat := by
    simp only [UInt8.toNat_add, UInt8.toNat_mul, UInt8.reduceToNat]
    omega
  have hhigh : (16 * d + e).toNat / 16 = d.toNat := by omega
  have hlow : (16 * d + e).toNat % 16 = e.toNat := by omega
  rw [encodeByte, hhigh, hlow, hdigit, hedigit]

lemma flatMap_pairUp (heven : text.length % 2 = 0) (h : ∀ x ∈ text, (digit? x).isSome) :
    (pairUp text).flatMap encodeByte = text.map lowerDigit := by
  induction text using pairUp.induct with
  | case1 hi lo rest ih =>
    obtain ⟨hhi, h⟩ := List.forall_mem_cons.mp h
    obtain ⟨hlo, hrest⟩ := List.forall_mem_cons.mp h
    obtain ⟨d, hd⟩ := Option.isSome_iff_exists.mp hhi
    obtain ⟨e, he⟩ := Option.isSome_iff_exists.mp hlo
    rw [List.length_cons, List.length_cons] at heven
    rw [pairUp, hd, he, List.flatMap_cons, Option.getD_some, Option.getD_some, encodeByte_pair hd he,
      ih (by omega) hrest]
    rfl
  | case2 text hshort =>
    match text, hshort with
    | [], _ => rfl
    | [x], _ => contradiction
    | hi :: lo :: rest, hshort => exact (hshort hi lo rest rfl).elim

lemma firstBad?_eq_none_iff (index : Nat) :
    firstBad? index text = none ↔ ∀ x ∈ text, (digit? x).isSome := by
  induction text generalizing index with
  | nil => simp [firstBad?]
  | cons c text ih =>
    rw [firstBad?, List.forall_mem_cons]
    split
    next hc => rw [ih, and_iff_right hc]
    next hc => simp [hc]

lemma decodeBytes_ok_iff : decodeBytes text = .ok b ↔
    text.length % 2 = 0 ∧ (∀ x ∈ text, (digit? x).isSome) ∧ pairUp text = b := by
  rw [decodeBytes, ← firstBad?_eq_none_iff 0]
  rcases Nat.mod_two_eq_zero_or_one text.length with h | h
  · rw [if_neg (by omega)]
    cases firstBad? 0 text <;> simp [h]
  · rw [if_pos h]
    simp [h]

theorem toList_encode_of_decodeBytes (h : decodeBytes text = .ok b) :
    (encode b).toList = text.map lowerDigit := by
  obtain ⟨heven, hdigits, rfl⟩ := decodeBytes_ok_iff.mp h
  rw [toList_encode, flatMap_pairUp heven hdigits]

lemma length_of_decodeBytes (h : decodeBytes text = .ok b) : 2 * b.length = text.length := by
  rw [← length_encode, toList_encode_of_decodeBytes h, List.length_map]

lemma flatMap_replicate_zero (n : Nat) :
    (List.replicate n 0).flatMap encodeByte = List.replicate (2 * n) '0' := by
  induction n with
  | zero => rfl
  | succ n ih =>
    have hzero : encodeByte 0 = ['0', '0'] := by decide
    rw [List.replicate_succ, List.flatMap_cons, hzero, ih, Nat.mul_succ, List.replicate_succ,
      List.replicate_succ]
    rfl

lemma lt_of_isSome {s : String} (h : ∀ x ∈ Utf8.encode s, (digit? x).isSome) :
    ∀ x ∈ Utf8.encode s, x.toNat < 128 := fun x hx => ((isSome_digit?_iff x).mp (h x hx)).1

lemma isSome_utf8_iff {s : String} :
    (∀ x ∈ Utf8.encode s, (digit? x).isSome) ↔ ∀ c ∈ s.toList, IsDigit c := by
  constructor
  · intro h
    rw [Utf8.toList_eq (lt_of_isSome h)]
    exact List.forall_mem_map.mpr fun x hx => ((isSome_digit?_iff x).mp (h x hx)).2
  · intro h x hx
    have hascii : "0123456789abcdefABCDEF".toList.all (·.toNat < 128) := by decide
    have hlt : ∀ x ∈ Utf8.encode s, x.toNat < 128 := Utf8.lt_of_mem_encode fun c hc =>
      of_decide_eq_true (List.all_eq_true.mp hascii c (h c hc))
    rw [Utf8.toList_eq hlt] at h
    exact (isSome_digit?_iff x).mpr ⟨hlt x hx, List.forall_mem_map.mp h x hx⟩

lemma map_lowerDigit {s : String} (h : ∀ x ∈ Utf8.encode s, x.toNat < 128) :
    (Utf8.encode s).map lowerDigit = s.toLower.toList := by
  change _ = (String.map Char.toLower s).toList
  rw [String.toList_map, Utf8.toList_eq h, List.map_map]
  rfl

end BitcoinTx.Hex
