import BitcoinTx.Proofs.Bytes.Endian
import BitcoinTx.Proofs.Text.Ascii
import BitcoinTx.Proofs.Text.Words
import BitcoinTx.Script.Asm
import Mathlib.Data.List.Nodup

/-! Opcodes are told apart by their names, and no name is one of the other spellings that a script may be
written with. -/

namespace BitcoinTx

/-- No number comes twice, and `seen` has a bit for none of them. -/
def distinct (seen : Nat) : List Nat → Bool
  | [] => true
  | n :: l => !seen.testBit n && distinct (seen ||| 1 <<< n) l

lemma nodup_of_distinct {seen : Nat} {l : List Nat} (h : distinct seen l = true) :
    l.Nodup ∧ ∀ n ∈ l, seen.testBit n = false := by
  induction l generalizing seen with
  | nil => simp
  | cons n l ih =>
    rw [distinct, Bool.and_eq_true, Bool.not_eq_true'] at h
    obtain ⟨hl, hbits⟩ := ih h.2
    have hapart : ∀ m ∈ l, seen.testBit m = false ∧ n ≠ m := by
      intro m hm
      have hbit := hbits m hm
      rw [Nat.testBit_or, Bool.or_eq_false_iff, Nat.one_shiftLeft, Nat.testBit_two_pow] at hbit
      exact ⟨hbit.1, of_decide_eq_false hbit.2⟩
    refine ⟨List.nodup_cons.mpr ⟨fun hn => (hapart n hn).2 rfl, hl⟩, ?_⟩
    exact List.forall_mem_cons.mpr ⟨h.1, fun m hm => (hapart m hm).1⟩

namespace Opcode

def numbered (stem : String) (base first count : Nat) : List (Opcode × String) :=
  (List.range' first count).map fun n => (UInt8.ofNat (base + n), stem ++ toString n)

/-- The opcodes with their names, and with names that they could have had. -/
def naming : List (Opcode × String) :=
  numbered "OP_DATA_" 0 1 75 ++ numbered "OP_" 0x50 1 16 ++ numbered "OP_NOP" 0xaf 4 7 ++ mnemonics ++
    numbered "OP_UNKNOWN" 0 0 256

def otherSpellings : List String := ["0", "OP_FALSE", "-1", "OP_TRUE"]

/-- Tells the spellings apart. The modulus is the least one for which it does. -/
def slot (s : String) : Nat := beValue (Utf8.encode s) % 6431

lemma nodup_slots : ((otherSpellings ++ naming.map Prod.snd).map slot).Nodup := by
  have h : distinct 0 ((otherSpellings ++ naming.map Prod.snd).map slot) = true := by decide +kernel
  exact (nodup_of_distinct h).1

lemma mem_numbered {stem : String} {base first count : Nat} {op : Opcode} (h : base + first ≤ op.toNat)
    (h' : op.toNat < base + first + count) :
    (op, stem ++ toString (op.toNat - base)) ∈ numbered stem base first count := by
  refine List.mem_map.mpr ⟨op.toNat - base, List.mem_range'_1.mpr (by omega), ?_⟩
  rw [Nat.add_sub_cancel' (by omega), UInt8.ofNat_toNat]

lemma mem_naming (op : Opcode) : (op, op.name) ∈ naming := by
  have hop := op.toNat_lt
  simp only [naming, List.mem_append]
  rw [name]
  split
  · next h =>
    obtain ⟨h₁, h₂⟩ := And.imp UInt8.le_iff_toNat_le.mp UInt8.le_iff_toNat_le.mp h
    exact .inl (.inl (.inl (.inl (mem_numbered h₁ (Nat.lt_succ_of_le h₂)))))
  split
  · next h =>
    obtain ⟨h₁, h₂⟩ := And.imp UInt8.le_iff_toNat_le.mp UInt8.le_iff_toNat_le.mp h
    exact .inl (.inl (.inl (.inr (mem_numbered h₁ (Nat.lt_succ_of_le h₂)))))
  split
  · next h =>
    obtain ⟨h₁, h₂⟩ := And.imp UInt8.le_iff_toNat_le.mp UInt8.le_iff_toNat_le.mp h
    exact .inl (.inl (.inr (mem_numbered h₁ (Nat.lt_succ_of_le h₂))))
  · cases hm : mnemonics.lookup op with
    | none => exact .inr (mem_numbered (Nat.zero_le _) (by omega))
    | some s =>
      obtain ⟨l, l', hl, -⟩ := List.lookup_eq_some_iff.mp hm
      have hmem : (op, s) ∈ mnemonics := hl ▸ List.mem_append_right l List.mem_cons_self
      exact .inl (.inr hmem)

variable {op op' : Opcode}

lemma name_injective (h : op.name = op'.name) : op = op' := by
  have hnodup := nodup_slots
  rw [List.map_append, List.map_map] at hnodup
  have hslots := List.inj_on_of_nodup_map (List.Nodup.of_append_right hnodup)
  exact congrArg Prod.fst (hslots (mem_naming op) (mem_naming op') (congrArg slot h))

lemma name_not_mem (op : Opcode) : op.name ∉ otherSpellings := by
  intro hmem
  have hnodup := nodup_slots
  rw [List.map_append, List.map_map] at hnodup
  have hslot : slot op.name ∈ naming.map (slot ∘ Prod.snd) := List.mem_map.mpr ⟨_, mem_naming op, rfl⟩
  exact List.disjoint_of_nodup_append hnodup (List.mem_map_of_mem hmem) hslot

theorem ofName?_name (op : Opcode) : ofName? op.name = some op := by
  have hmem : op ∈ all := List.mem_map.mpr ⟨op.toNat, List.mem_range.mpr op.toNat_lt, UInt8.ofNat_toNat⟩
  cases h : ofName? op.name with
  | none =>
    have hnone := List.find?_eq_none.mp h op hmem
    simp at hnone
  | some op' =>
    have hname : op'.name = op.name := by simpa using List.find?_some h
    rw [name_injective hname]

lemma printable_name (op : Opcode) : (Utf8.encode op.name).take 3 = [0x4f, 0x50, 0x5f] ∧
    ∀ x ∈ Utf8.encode op.name, 0x20 < x.toNat ∧ x.toNat < 0x7f := by
  have hall : ∀ e ∈ naming, (Utf8.encode e.2).take 3 = [0x4f, 0x50, 0x5f] ∧
      (Utf8.encode e.2).all fun x => 0x20 < x.toNat ∧ x.toNat < 0x7f := by decide +kernel
  obtain ⟨htake, hprintable⟩ := hall _ (mem_naming op)
  exact ⟨htake, fun x hx => of_decide_eq_true (List.all_eq_true.mp hprintable x hx)⟩

lemma toList_name (op : Opcode) :
    op.name.toList = (Utf8.encode op.name).map (Char.ofNat ·.toNat) := by
  have hascii : ∀ x ∈ Utf8.encode op.name, x.toNat < 128 := by
    intro x hx
    have hlt := ((printable_name op).2 x hx).2
    omega
  rw [← String.toList_ofList (l := List.map _ _), ← Utf8.ofAscii, ← Utf8.eq_ofAscii hascii]

lemma isName_name (op : Opcode) : Script.isName op.name = true := by
  have htake := (printable_name op).1
  rw [Script.isName, toList_name, List.isPrefixOf_iff_prefix, List.prefix_iff_eq_take]
  change _ = List.take 3 _
  rw [← List.map_take, htake]
  rfl

lemma isWord_name (op : Opcode) : Text.IsWord op.name := by
  have hblank : ∀ n < 0x7f, 0x20 < n → Text.isBlank (Char.ofNat n) = false := by decide
  obtain ⟨htake, hprintable⟩ := printable_name op
  rw [Text.IsWord, toList_name]
  constructor
  · intro hnil
    rw [List.map_eq_nil_iff.mp hnil] at htake
    cases htake
  · refine List.forall_mem_map.mpr fun x hx => ?_
    obtain ⟨hlow, hhigh⟩ := hprintable x hx
    exact hblank _ hhigh hlow

end Opcode

end BitcoinTx
