import BitcoinTx.Proofs.Script.Codec

/-! Taking an opcode out of a script leaves all other instructions as they stood. -/

namespace BitcoinTx.Script

open Instruction Outcome

variable {s : Script} {op : Opcode} {l : List Instruction}

lemma removeOpcode_of_instructions (h : s.instructions = .ok l) :
    s.removeOpcode op = .ok (ofInstructions (l.filter (·.opcode ≠ op))) := by
  rw [removeOpcode, h]
  rfl

lemma removeOpcode_error_iff {e : MalformedPush} :
    s.removeOpcode op = .error e ↔ s.instructions = .error e := by
  rw [removeOpcode]
  cases s.instructions <;> simp [Except.map]

lemma instructions_filter (p : Instruction → Bool) (h : s.instructions = .ok l) :
    (ofInstructions (l.filter p)).instructions = .ok (l.filter p) := by
  have hl := (instructions_ok_iff.mp h).1
  exact instructions_ok_iff.mpr ⟨fun i hi => hl i (List.mem_of_mem_filter hi), rfl⟩

lemma removeOpcode_eq_self_iff (h : s.instructions = .ok l) :
    s.removeOpcode op = .ok s ↔ ∀ i ∈ l, i.opcode ≠ op := by
  have hfilter : l.filter (·.opcode ≠ op) = l ↔ ∀ i ∈ l, i.opcode ≠ op := by
    simp [List.filter_eq_self]
  rw [removeOpcode_of_instructions h, ← hfilter, Except.ok.injEq]
  constructor
  · intro hs
    have hl := instructions_filter (·.opcode ≠ op) h
    rw [hs, h] at hl
    exact (Except.ok.inj hl).symm
  · intro hl
    rw [hl]
    exact congrArg Script.mk (instructions_ok_iff.mp h).2

lemma removeOpcode_removed (op : Opcode) (h : s.instructions = .ok l) :
    (ofInstructions (l.filter (·.opcode ≠ op))).removeOpcode op =
      .ok (ofInstructions (l.filter (·.opcode ≠ op))) := by
  rw [removeOpcode_of_instructions (instructions_filter _ h), List.filter_filter]
  simp only [Bool.and_self]

/-- Removal fails where the script does not parse, in the way the parser does. What it leaves parses to the
instructions with another opcode, and has nothing more to remove. -/
theorem removeOpcode_instructions (s : Script) (op : Opcode) :
    (∀ e, s.removeOpcode op = .error e ↔ s.instructions = .error e) ∧
      ∀ l, s.instructions = .ok l → ∃ t, s.removeOpcode op = .ok t ∧
        t.instructions = .ok (l.filter (·.opcode ≠ op)) ∧ t.removeOpcode op = .ok t := by
  refine ⟨fun e => removeOpcode_error_iff, fun l hl => ?_⟩
  have ht := instructions_filter (·.opcode ≠ op) hl
  exact ⟨_, removeOpcode_of_instructions hl, ht, removeOpcode_removed op hl⟩

def separated : Script := ⟨[0xab, 0x4c, 0x01, 0xab, 0xab, 0x02, 0xab, 0x00]⟩

lemma instructions_separated : separated.instructions =
    .ok [.op .codeSeparator, ⟨.pushData1, some [0xab]⟩, .op .codeSeparator, ⟨0x02, some [0xab, 0x00]⟩] := by
  with_unfolding_all rfl

/-- The separators go, and not the bytes of the same value in the two pushes, the first of which is longer
than it need be. -/
theorem removeOpcode_instructions_separated :
    separated.instructions = .ok [.op .codeSeparator, ⟨.pushData1, some [0xab]⟩, .op .codeSeparator,
        ⟨0x02, some [0xab, 0x00]⟩] ∧
      ∃ t, separated.removeOpcode .codeSeparator = .ok t ∧
        t.instructions = .ok [⟨.pushData1, some [0xab]⟩, ⟨0x02, some [0xab, 0x00]⟩] ∧
        t.removeOpcode .codeSeparator = .ok t :=
  ⟨instructions_separated,
    (removeOpcode_instructions separated .codeSeparator).2 _ instructions_separated⟩

end BitcoinTx.Script
