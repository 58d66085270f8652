import BitcoinTx.Proofs.Text.Hex
import BitcoinTx.Txid
import Mathlib.Data.List.Basic

/-! The text of transaction ids: 64 digits in lower case are written, and fewer digits, of either case,
are read as well. -/

namespace BitcoinTx

namespace Txid

variable {t : Txid} {text : String} {b : Bytes}

def evened (digits : Bytes) : Bytes :=
  if digits.length % 2 = 1 then 0x30 :: digits else digits

lemma ofHex_ok_iff : ofHex text = .ok t ↔ (Utf8.encode text).length ≤ 64 ∧
    ∃ b, Hex.decodeBytes (evened (Utf8.encode text)) = .ok b ∧ b.length ≤ 32 ∧
      t.reversed.val = List.replicate (32 - b.length) 0 ++ b := by
  simp only [ofHex]
  constructor
  · intro h
    split at h
    · contradiction
    next hsize =>
      split at h
      · contradiction
      next b hb =>
        split at h
        next f hf =>
          cases h
          obtain ⟨hlen, hval⟩ := FixedBytes.ofTail?_eq_some_iff.mp hf
          rw [reversed, FixedBytes.reverse_reverse]
          exact ⟨Nat.le_of_not_lt hsize, b, hb, hlen, hval⟩
        · contradiction
  · rintro ⟨hsize, b, hb, hlen, hval⟩
    have htail : FixedBytes.ofTail? 32 b = some t.reversed :=
      FixedBytes.ofTail?_eq_some_iff.mpr ⟨hlen, hval⟩
    rw [evened] at hb
    rw [if_neg (Nat.not_lt.mpr hsize), hb]
    simp only [htail, reversed, FixedBytes.reverse_reverse]

lemma length_evened_le {digits : Bytes} (h : digits.length ≤ 64) : (evened digits).length ≤ 64 := by
  rw [evened]
  split
  · rw [List.length_cons]
    omega
  · exact h

lemma length_evened_mod_two (digits : Bytes) : (evened digits).length % 2 = 0 := by
  rw [evened]
  split
  · rw [List.length_cons]
    omega
  · omega

lemma forall_evened {digits : Bytes} :
    (∀ x ∈ evened digits, (Hex.digit? x).isSome) ↔ ∀ x ∈ digits, (Hex.digit? x).isSome := by
  rw [evened]
  split
  · rw [List.forall_mem_cons]
    exact and_iff_right rfl
  · rfl

lemma leftpad_cons {α : Type} {n : Nat} {a : α} {l : List α} (h : l.length < n) :
    (a :: l).leftpad n a = l.leftpad n a := by
  have hcount : n - l.length = n - (l.length + 1) + 1 := by omega
  rw [List.leftpad, List.leftpad, hcount, List.replicate_succ', List.append_assoc, List.length_cons]
  rfl

lemma leftpad_evened {digits : Bytes} (h : digits.length ≤ 64) :
    ((evened digits).map Hex.lowerDigit).leftpad 64 '0' =
      (digits.map Hex.lowerDigit).leftpad 64 '0' := by
  rw [evened]
  split
  · have hzero : Hex.lowerDigit 0x30 = '0' := by decide
    rw [List.map_cons, hzero, leftpad_cons (by rw [List.length_map]; omega)]
  · rfl

lemma toList_toHex (hlen : b.length ≤ 32)
    (hval : t.reversed.val = List.replicate (32 - b.length) 0 ++ b) :
    t.toHex.toList = (Hex.encode b).toList.leftpad 64 '0' := by
  have hcount : 64 - 2 * b.length = 2 * (32 - b.length) := by omega
  rw [toHex, hval, Hex.toList_encode, List.flatMap_append, Hex.flatMap_replicate_zero, List.leftpad,
    Hex.length_encode, Hex.toList_encode, hcount]

lemma of_ofHex_ok (h : ofHex text = .ok t) : text.utf8ByteSize ≤ 64 ∧
    (∀ c ∈ text.toList, Hex.IsDigit c) ∧ t.toHex = String.ofList (text.toLower.toList.leftpad 64 '0') := by
  obtain ⟨hsize, b, hb, hlen, hval⟩ := ofHex_ok_iff.mp h
  obtain ⟨-, hdigits, -⟩ := Hex.decodeBytes_ok_iff.mp hb
  rw [forall_evened] at hdigits
  rw [← Utf8.length_encode]
  refine ⟨hsize, Hex.isSome_utf8_iff.mp hdigits, String.toList_inj.mp ?_⟩
  rw [String.toList_ofList, toList_toHex hlen hval, Hex.toList_encode_of_decodeBytes hb,
    leftpad_evened hsize, Hex.map_lowerDigit (Hex.lt_of_isSome hdigits)]

lemma exists_ofHex (hsize : text.utf8ByteSize ≤ 64) (h : ∀ c ∈ text.toList, Hex.IsDigit c) :
    ∃ t, ofHex text = .ok t := by
  rw [← Utf8.length_encode] at hsize
  have hb : Hex.decodeBytes (evened (Utf8.encode text)) = .ok _ := Hex.decodeBytes_ok_iff.mpr
    ⟨length_evened_mod_two _, forall_evened.mpr (Hex.isSome_utf8_iff.mpr h), rfl⟩
  have hlen : (Hex.pairUp (evened (Utf8.encode text))).length ≤ 32 := by
    have hdouble := Hex.length_of_decodeBytes hb
    have heven := length_evened_le hsize
    omega
  obtain ⟨f, hf⟩ : ∃ f, FixedBytes.ofTail? 32 (Hex.pairUp (evened (Utf8.encode text))) = some f :=
    ⟨_, dif_pos hlen⟩
  refine ⟨⟨f.reverse⟩, ofHex_ok_iff.mpr ⟨hsize, _, hb, hlen, ?_⟩⟩
  rw [reversed, FixedBytes.reverse_reverse]
  exact (FixedBytes.ofTail?_eq_some_iff.mp hf).2

lemma ofHex_toHex (t : Txid) : ofHex t.toHex = .ok t := by
  have hsize : (Utf8.encode t.toHex).length = 64 := by
    rw [toHex, Hex.length_utf8_encode, t.reversed.property]
  have hevened : evened (Utf8.encode t.toHex) = Utf8.encode t.toHex := if_neg (by omega)
  refine ofHex_ok_iff.mpr ⟨Nat.le_of_eq hsize, t.reversed.val, ?_,
    Nat.le_of_eq t.reversed.property, ?_⟩
  · rw [hevened]
    exact Hex.decode_encode _
  · rw [t.reversed.property]
    rfl

/-- Texts of at most 64 digits are read, and shown in lower case behind as many zeros as are missing; what
is shown of an id is read as the id. -/
theorem ofHex_canonical :
    (∀ text, (∃ t, ofHex text = .ok t) ↔
      text.utf8ByteSize ≤ 64 ∧ ∀ c ∈ text.toList, Hex.IsDigit c) ∧
    (∀ text t, ofHex text = .ok t →
      t.toHex = String.ofList (text.toLower.toList.leftpad 64 '0')) ∧
    ∀ t, ofHex t.toHex = .ok t := by
  refine ⟨fun text => ⟨?_, fun ⟨hsize, h⟩ => exists_ofHex hsize h⟩, fun text t h => ?_, ofHex_toHex⟩
  · rintro ⟨t, h⟩
    obtain ⟨hsize, hdigits, -⟩ := of_ofHex_ok h
    exact ⟨hsize, hdigits⟩
  · exact (of_ofHex_ok h).2.2

end Txid

def shortId : Txid := ⟨(FixedBytes.ofNat 32 0xabc).reverse⟩

theorem ofHex_canonical_shortId : Txid.ofHex "aBc" = .ok shortId ∧
    shortId.toHex = "0000000000000000000000000000000000000000000000000000000000000abc" ∧
    Txid.ofHex shortId.toHex = .ok shortId ∧
    ¬ ∃ t, Txid.ofHex "é" = .ok t := by
  obtain ⟨hdigits, hshown, hread⟩ := Txid.ofHex_canonical
  have h : Txid.ofHex "aBc" = .ok shortId := by decide +kernel
  refine ⟨h, (hshown "aBc" shortId h).trans (by decide +kernel), hread shortId, ?_⟩
  rw [hdigits]
  rintro ⟨-, hall⟩
  exact absurd (hall 'é' (by decide)) (by decide)

end BitcoinTx
