import BitcoinTx.Proofs.Bytes.Endian
import BitcoinTx.Proofs.Eval.Outcome
import BitcoinTx.Wire.Reader

/-! What readers take off the front of a byte string. A number that counts something has several
forms, of which the shortest is written and all are read. -/

namespace BitcoinTx

open Outcome

namespace CompactSize

/-- The bytes stand for the number, with or without a marker in front. -/
def Form (n : Nat) (c : Bytes) : Prop :=
  n < 0xfd ∧ c = [UInt8.ofNat n] ∨ n < 2 ^ 16 ∧ c = 0xfd :: leBytes 2 n ∨
    n < 2 ^ 32 ∧ c = 0xfe :: leBytes 4 n ∨ n < 2 ^ 64 ∧ c = 0xff :: leBytes 8 n

variable {n : Nat} {c : Bytes}

lemma form_encode (h : n < 2 ^ 64) : Form n (encode n) := by
  rw [encode]
  split
  · next h₁ => exact .inl ⟨h₁, rfl⟩
  split
  · next h₂ => exact .inr (.inl ⟨h₂, rfl⟩)
  split
  · next h₄ => exact .inr (.inr (.inl ⟨h₄, rfl⟩))
  · exact .inr (.inr (.inr ⟨h, rfl⟩))

lemma Form.lt (h : Form n c) : n < 2 ^ 64 := by
  rcases h with ⟨hn, -⟩ | ⟨hn, -⟩ | ⟨hn, -⟩ | ⟨hn, -⟩ <;> omega

lemma Form.size_le (h : Form n c) : size n ≤ c.length := by
  rw [size]
  rcases h with ⟨hn, rfl⟩ | ⟨hn, rfl⟩ | ⟨hn, rfl⟩ | ⟨hn, rfl⟩ <;>
    simp only [List.length_cons, List.length_nil, length_leBytes] <;> split_ifs <;> omega

lemma Form.eq_encode (h : Form n c) (hc : c.length = size n) : c = encode n := by
  rw [size] at hc
  rw [encode]
  rcases h with ⟨hn, rfl⟩ | ⟨hn, rfl⟩ | ⟨hn, rfl⟩ | ⟨hn, rfl⟩ <;>
    simp only [List.length_cons, List.length_nil, length_leBytes] at hc <;>
    split_ifs at hc ⊢ <;> first | rfl | omega

lemma width_cases (m : UInt8) : width m = 0 ∧ m.toNat < 0xfd ∨
    m = 0xfd ∧ width m = 2 ∨ m = 0xfe ∧ width m = 4 ∨ m = 0xff ∧ width m = 8 := by
  rw [width]
  split
  · next h₈ => exact .inr (.inr (.inr ⟨h₈, rfl⟩))
  split
  · next h₄ => exact .inr (.inr (.inl ⟨h₄, rfl⟩))
  split
  · next h₂ => exact .inr (.inl ⟨h₂, rfl⟩)
  · next h₈ h₄ h₂ =>
    have hm := m.toNat_lt
    rw [← UInt8.toNat_inj] at h₈ h₄ h₂
    change ¬ m.toNat = 255 at h₈
    change ¬ m.toNat = 254 at h₄
    change ¬ m.toNat = 253 at h₂
    exact .inl ⟨rfl, by omega⟩

lemma width_of_lt (h : n < 0xfd) : width (UInt8.ofNat n) = 0 := by
  have hn := UInt8.toNat_ofNat_of_lt' (Nat.lt_trans h (by decide))
  rcases width_cases (UInt8.ofNat n) with ⟨hw, -⟩ | ⟨hm, -⟩ | ⟨hm, -⟩ | ⟨hm, -⟩
  · exact hw
  all_goals
    rw [hm] at hn
    change _ = n at hn
    simp at hn
    omega

end CompactSize

namespace Reader

variable {b rest : Bytes} {n w : Nat}

lemma fixed_ok {x : FixedBytes n} : fixed n b = .ok x rest ↔ b = x.val ++ rest := by
  rw [fixed, get_bind_ok]
  split
  · next h =>
    change EStateM.Result.ok ⟨b.take n, _⟩ (b.drop n) = .ok x rest ↔ _
    rw [EStateM.Result.ok.injEq]
    constructor
    · rintro ⟨rfl, rfl⟩
      exact (List.take_append_drop n b).symm
    · rintro rfl
      exact ⟨Subtype.ext (List.take_left' x.property), List.drop_left' x.property⟩
  · next h =>
    rw [throw_ok, false_iff]
    rintro rfl
    rw [List.length_append, x.property] at h
    omega

lemma take_ok {x : Bytes} : take n b = .ok x rest ↔ x.length = n ∧ b = x ++ rest := by
  rw [take, map_ok]
  constructor
  · rintro ⟨y, hy, rfl⟩
    exact ⟨y.property, fixed_ok.mp hy⟩
  · rintro ⟨hx, hb⟩
    exact ⟨⟨x, hx⟩, fixed_ok.mpr hb, rfl⟩

lemma number_ok : number w b = .ok n rest ↔ n < 256 ^ w ∧ b = leBytes w n ++ rest := by
  rw [number, map_ok]
  simp only [take_ok]
  constructor
  · rintro ⟨x, ⟨rfl, rfl⟩, rfl⟩
    exact ⟨leValue_lt x, by rw [leBytes_leValue]⟩
  · rintro ⟨hn, rfl⟩
    exact ⟨leBytes w n, ⟨length_leBytes w n, rfl⟩, leValue_leBytes hn⟩

lemma word_ok {α : Type} {x : α} {ofNat : Nat → α} {toNat : α → Nat} (hlt : ∀ x, toNat x < 256 ^ w)
    (hword : ∀ x, ofNat (toNat x) = x) (hnat : ∀ n < 256 ^ w, toNat (ofNat n) = n) :
    (ofNat <$> number w) b = .ok x rest ↔ b = leBytes w (toNat x) ++ rest := by
  rw [map_ok]
  simp only [number_ok]
  constructor
  · rintro ⟨m, ⟨hm, rfl⟩, rfl⟩
    rw [hnat m hm]
  · intro h
    exact ⟨toNat x, ⟨hlt x, h⟩, hword x⟩

lemma u8_ok {x : UInt8} : u8 b = .ok x rest ↔ b = x :: rest := by
  have hbyte : leBytes 1 x.toNat = [x] := by
    rw [leBytes, leBytes, UInt8.ofNat_toNat]
  rw [u8, word_ok (·.toNat_lt) (fun _ => UInt8.ofNat_toNat) fun _ hn => UInt8.toNat_ofNat_of_lt' hn,
    hbyte]
  rfl

lemma u16_ok {x : UInt16} : u16 b = .ok x rest ↔ b = leBytes 2 x.toNat ++ rest :=
  word_ok (·.toNat_lt) (fun _ => UInt16.ofNat_toNat) fun _ hn => UInt16.toNat_ofNat_of_lt' hn

lemma u32_ok {x : UInt32} : u32 b = .ok x rest ↔ b = leBytes 4 x.toNat ++ rest :=
  word_ok (·.toNat_lt) (fun _ => UInt32.ofNat_toNat) fun _ hn => UInt32.toNat_ofNat_of_lt' hn

lemma u64_ok {x : UInt64} : u64 b = .ok x rest ↔ b = leBytes 8 x.toNat ++ rest :=
  word_ok (·.toNat_lt) (fun _ => UInt64.ofNat_toNat) fun _ hn => UInt64.toNat_ofNat_of_lt' hn

lemma compactSize_ok :
    compactSize b = .ok n rest ↔ ∃ c, CompactSize.Form n c ∧ b = c ++ rest := by
  rw [compactSize, bind_ok]
  simp only [u8_ok]
  constructor
  · rintro ⟨m, b, rfl, h⟩
    rcases CompactSize.width_cases m with ⟨hw, hm⟩ | ⟨rfl, hw⟩ | ⟨rfl, hw⟩ | ⟨rfl, hw⟩
    · rw [if_pos hw, pure_ok] at h
      obtain ⟨rfl, rfl⟩ := h
      exact ⟨[m], .inl ⟨hm, by rw [UInt8.ofNat_toNat]⟩, rfl⟩
    · obtain ⟨hn, rfl⟩ := number_ok.mp h
      exact ⟨_, .inr (.inl ⟨hn, rfl⟩), rfl⟩
    · obtain ⟨hn, rfl⟩ := number_ok.mp h
      exact ⟨_, .inr (.inr (.inl ⟨hn, rfl⟩)), rfl⟩
    · obtain ⟨hn, rfl⟩ := number_ok.mp h
      exact ⟨_, .inr (.inr (.inr ⟨hn, rfl⟩)), rfl⟩
  · rintro ⟨c, ⟨hn, rfl⟩ | ⟨hn, rfl⟩ | ⟨hn, rfl⟩ | ⟨hn, rfl⟩, rfl⟩
    · refine ⟨UInt8.ofNat n, rest, rfl, ?_⟩
      rw [if_pos (CompactSize.width_of_lt hn), pure_ok]
      exact ⟨UInt8.toNat_ofNat_of_lt' (Nat.lt_trans hn (by decide)), rfl⟩
    · exact ⟨0xfd, _, rfl, number_ok.mpr ⟨hn, rfl⟩⟩
    · exact ⟨0xfe, _, rfl, number_ok.mpr ⟨hn, rfl⟩⟩
    · exact ⟨0xff, _, rfl, number_ok.mpr ⟨hn, rfl⟩⟩

lemma varBytes_ok {x : Bytes} :
    varBytes b = .ok x rest ↔ ∃ c, CompactSize.Form x.length c ∧ b = c ++ x ++ rest := by
  rw [varBytes, bind_ok]
  simp only [compactSize_ok, take_ok]
  constructor
  · rintro ⟨_, _, ⟨c, hc, rfl⟩, rfl, rfl⟩
    exact ⟨c, hc, (List.append_assoc ..).symm⟩
  · rintro ⟨c, hc, rfl⟩
    exact ⟨x.length, x ++ rest, ⟨c, hc, List.append_assoc ..⟩, rfl, rfl⟩

end Reader

end BitcoinTx
