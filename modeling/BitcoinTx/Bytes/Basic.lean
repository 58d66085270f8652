/-! Byte strings, and byte strings of a fixed length. -/

namespace BitcoinTx

abbrev Bytes := List UInt8

abbrev FixedBytes (n : Nat) := { b : Bytes // b.length = n }

abbrev Hash160 := FixedBytes 20

abbrev Hash256 := FixedBytes 32

namespace FixedBytes

def zero (n : Nat) : FixedBytes n :=
  ⟨List.replicate n 0, List.length_replicate⟩

def ofBytes? (n : Nat) (b : Bytes) : Option (FixedBytes n) :=
  if h : b.length = n then some ⟨b, h⟩ else none

/-- The bytes behind as many zeros as are missing. -/
def ofTail? (n : Nat) (b : Bytes) : Option (FixedBytes n) :=
  if h : b.length ≤ n then
    some ⟨List.replicate (n - b.length) 0 ++ b, by
      rw [List.length_append, List.length_replicate, Nat.sub_add_cancel h]⟩
  else none

def reverse {n : Nat} (b : FixedBytes n) : FixedBytes n :=
  ⟨b.val.reverse, by rw [List.length_reverse, b.property]⟩

instance (n : Nat) : Inhabited (FixedBytes n) := ⟨zero n⟩

@[simp] theorem ofBytes?_val {n : Nat} (b : FixedBytes n) : ofBytes? n b.val = some b := by
  simp [ofBytes?, b.property]

theorem ofBytes?_eq_some_iff {n : Nat} {b : Bytes} {f : FixedBytes n} :
    ofBytes? n b = some f ↔ b = f.val := by
  constructor
  · intro h
    simp only [ofBytes?] at h
    split at h
    · cases h
      rfl
    · contradiction
  · rintro rfl
    simp

theorem ofTail?_eq_some_iff {n : Nat} {b : Bytes} {f : FixedBytes n} :
    ofTail? n b = some f ↔ b.length ≤ n ∧ f.val = List.replicate (n - b.length) 0 ++ b := by
  rw [ofTail?]
  constructor
  · intro h
    split at h
    next hb =>
      cases h
      exact ⟨hb, rfl⟩
    next => contradiction
  · rintro ⟨hb, hf⟩
    rw [dif_pos hb]
    exact congrArg some (Subtype.ext hf.symm)

@[simp] theorem reverse_reverse {n : Nat} (b : FixedBytes n) : b.reverse.reverse = b := by
  apply Subtype.ext
  simp [reverse]

end FixedBytes

end BitcoinTx
