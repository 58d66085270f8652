import BitcoinTx.Script.Standard
import BitcoinTx.Proofs.Bytes.Endian
import BitcoinTx.Proofs.Eval.Outcome

/-! The instructions of a script and its bytes determine each other. -/

namespace BitcoinTx

open Outcome

/-- The failure of a script that `k` other bytes stand in front of. -/
def MalformedPush.shift (k : Nat) (e : MalformedPush) : MalformedPush :=
  { e with offset := k + e.offset }

namespace Instruction

/-- The operand is there exactly when the opcode asks for one, and its size can be told. -/
def WellFormed (i : Instruction) : Prop :=
  match i.opcode.operand with
  | .none => i.data = none
  | .fixed n => ∃ d, i.data = some d ∧ d.length = n
  | .sized w => ∃ d, i.data = some d ∧ d.length < 256 ^ w

lemma splitData_append (d b : Bytes) : splitData d.length (d ++ b) = .ok (some d, b) := by
  simp [splitData]

lemma splitData_ok {n : Nat} {b : Bytes} {r : Option Bytes × Bytes} (h : splitData n b = .ok r) :
    ∃ d, d.length = n ∧ b = d ++ r.2 ∧ r.1 = some d := by
  rw [splitData] at h
  split at h
  · cases h
  · next hn =>
    cases h
    have hn : n ≤ b.length := by
      rw [List.length_take] at hn
      omega
    exact ⟨b.take n, List.length_take_of_le hn, (List.take_append_drop n b).symm, rfl⟩

lemma splitOperand_append {i : Instruction} (hi : i.WellFormed) (b : Bytes) :
    splitOperand i.opcode (i.opcode.lengthBytes i.content.length ++ i.content ++ b) =
      .ok (i.data, b) := by
  obtain ⟨op, data⟩ := i
  simp only [WellFormed] at hi
  simp only [splitOperand, Opcode.lengthBytes, content]
  cases ho : op.operand with
  | none =>
    rw [ho] at hi
    simp [hi]
  | fixed n =>
    rw [ho] at hi
    obtain ⟨d, rfl, rfl⟩ := hi
    exact splitData_append d b
  | sized w =>
    rw [ho] at hi
    obtain ⟨d, rfl, hd⟩ := hi
    have hs := splitData_append (leBytes w d.length) (d ++ b)
    rw [length_leBytes] at hs
    simp only [Option.getD_some, List.append_assoc, hs]
    rw [List.take_left' (length_leBytes w _), leValue_leBytes hd]
    exact splitData_append d b

lemma splitOperand_ok {op : Opcode} {b rest : Bytes} {data : Option Bytes}
    (h : splitOperand op b = .ok (data, rest)) :
    WellFormed ⟨op, data⟩ ∧
      b = op.lengthBytes (content ⟨op, data⟩).length ++ content ⟨op, data⟩ ++ rest := by
  simp only [splitOperand] at h
  simp only [WellFormed, Opcode.lengthBytes, content]
  cases ho : op.operand with
  | none =>
    rw [ho] at h
    cases h
    simp
  | fixed n =>
    rw [ho] at h
    obtain ⟨d, hn, hb, hd⟩ := splitData_ok h
    subst hd
    exact ⟨⟨d, rfl, hn⟩, hb⟩
  | sized w =>
    simp only [ho] at h
    split at h
    · cases h
    · next hs =>
      obtain ⟨w', hw, hb, -⟩ := splitData_ok hs
      obtain ⟨d, hn, hr, hd⟩ := splitData_ok h
      subst hw hd hb
      rw [List.take_left] at hn
      simp only at hr
      refine ⟨⟨d, rfl, hn ▸ leValue_lt w'⟩, ?_⟩
      simp [hr, hn, leBytes_leValue]

@[simp] lemma encodeAll_cons (i : Instruction) (l : List Instruction) :
    encodeAll (i :: l) = i.encode ++ encodeAll l := rfl

@[simp] lemma encodeAll_append (l l' : List Instruction) :
    encodeAll (l ++ l') = encodeAll l ++ encodeAll l' :=
  List.flatMap_append

lemma decodeFrom_cons {offset : Nat} {op : Opcode} {b rest : Bytes} {data : Option Bytes}
    (h : splitOperand op b = .ok (data, rest)) :
    decodeFrom offset (op :: b) =
      (decodeFrom (offset + size ⟨op, data⟩) rest).map (⟨op, data⟩ :: ·) := by
  rw [decodeFrom]
  split
  · next h' =>
    rw [h] at h'
    cases h'
  · next h' =>
    rw [h] at h'
    cases h'
    dsimp only
    cases decodeFrom (offset + size ⟨op, data⟩) rest <;> rfl

lemma decodeFrom_cons_error {offset needed remaining : Nat} {op : Opcode} {b : Bytes}
    (h : splitOperand op b = .error (needed, remaining)) :
    decodeFrom offset (op :: b) = .error ⟨offset, op, needed, remaining⟩ := by
  rw [decodeFrom]
  split
  · next h' =>
    rw [h] at h'
    cases h'
    rfl
  · next h' =>
    rw [h] at h'
    cases h'

lemma decodeFrom_shift (k offset : Nat) (b : Bytes) :
    decodeFrom (k + offset) b = (decodeFrom offset b).mapError (.shift k) := by
  match b with
  | [] =>
    rw [decodeFrom, decodeFrom]
    rfl
  | op :: b =>
    cases hs : splitOperand op b with
    | error e =>
      rw [decodeFrom_cons_error hs, decodeFrom_cons_error hs]
      rfl
    | ok r =>
      obtain ⟨data, rest⟩ := r
      have hr : rest.length ≤ b.length := length_of_splitOperand hs
      rw [decodeFrom_cons hs, decodeFrom_cons hs, Nat.add_assoc, decodeFrom_shift k _ rest]
      cases decodeFrom (offset + size ⟨op, data⟩) rest <;> rfl
termination_by b.length

lemma decodeFrom_append {l : List Instruction} (hl : ∀ i ∈ l, i.WellFormed) (offset : Nat)
    (b : Bytes) : decodeFrom offset (encodeAll l ++ b) =
      (decodeFrom (offset + (encodeAll l).length) b).map (l ++ ·) := by
  induction l generalizing offset with
  | nil =>
    change decodeFrom offset b = (decodeFrom offset b).map id
    cases decodeFrom offset b <;> rfl
  | cons i l ih =>
    have hs := splitOperand_append (hl i List.mem_cons_self) (encodeAll l ++ b)
    have hsize : offset + (i.encode ++ encodeAll l).length = offset + i.size + (encodeAll l).length := by
      rw [List.length_append, ← Nat.add_assoc, size]
    rw [encodeAll_cons, List.append_assoc, hsize, encode, List.cons_append, List.cons_append,
      decodeFrom_cons hs, ih fun j hj => hl j (List.mem_cons_of_mem i hj)]
    change (Except.map _ (decodeFrom (offset + i.size + (encodeAll l).length) b)).map _ = _
    cases decodeFrom (offset + i.size + (encodeAll l).length) b <;> rfl

lemma decodeFrom_encodeAll {l : List Instruction} (hl : ∀ i ∈ l, i.WellFormed) (offset : Nat) :
    decodeFrom offset (encodeAll l) = .ok l := by
  rw [← List.append_nil (encodeAll l), decodeFrom_append hl, decodeFrom]
  exact congrArg Except.ok l.append_nil

lemma decodeFrom_ok {offset : Nat} {b : Bytes} {l : List Instruction}
    (h : decodeFrom offset b = .ok l) : (∀ i ∈ l, i.WellFormed) ∧ encodeAll l = b := by
  match b with
  | [] =>
    rw [decodeFrom] at h
    cases h
    simp [encodeAll]
  | op :: b =>
    cases hs : splitOperand op b with
    | error e =>
      rw [decodeFrom_cons_error hs] at h
      cases h
    | ok r =>
      obtain ⟨data, rest⟩ := r
      rw [decodeFrom_cons hs, except_map_ok] at h
      obtain ⟨l, hd, rfl⟩ := h
      have hr := length_of_splitOperand hs
      obtain ⟨hi, hb⟩ := splitOperand_ok hs
      obtain ⟨hl, he⟩ := decodeFrom_ok hd
      refine ⟨List.forall_mem_cons.mpr ⟨hi, hl⟩, ?_⟩
      rw [encodeAll_cons, he, encode, hb]
      rfl
termination_by b.length

lemma decode_ok_iff {b : Bytes} {l : List Instruction} :
    decode b = .ok l ↔ (∀ i ∈ l, i.WellFormed) ∧ encodeAll l = b := by
  constructor
  · exact decodeFrom_ok
  · rintro ⟨hl, rfl⟩
    exact decodeFrom_encodeAll hl 0

lemma decode_append {a : Bytes} {x : List Instruction} (h : decode a = .ok x) (b : Bytes) :
    decode (a ++ b) = ((decode b).mapError (.shift a.length)).map (x ++ ·) := by
  obtain ⟨hx, rfl⟩ := decode_ok_iff.mp h
  rw [decode, decodeFrom_append hx, Nat.zero_add, decode, ← decodeFrom_shift, Nat.add_zero]

/-- The byte strings that parse are those of lists of well-formed instructions, and each belongs to one
list. What stands in front of a script that parses changes only where its failure is found. -/
theorem decode_bijective :
    (∀ b l, decode b = .ok l ↔ (∀ i ∈ l, i.WellFormed) ∧ encodeAll l = b) ∧
      ∀ a x, decode a = .ok x → ∀ b,
        (∀ y, decode b = .ok y → decode (a ++ b) = .ok (x ++ y)) ∧
          ∀ e, decode b = .error e → decode (a ++ b) = .error (e.shift a.length) := by
  refine ⟨fun b l => decode_ok_iff, fun a x hx b => ⟨fun y hy => ?_, fun e he => ?_⟩⟩
  · rw [decode_append hx, hy]
    rfl
  · rw [decode_append hx, he]
    rfl

/-- The empty push `OP_PUSHDATA1 00` parses and is written back, and a push of two bytes that has one
of them left fails behind it at offset two. -/
theorem decode_bijective_emptyPush :
    decode [0x4c, 0x00] = .ok [⟨.pushData1, some []⟩] ∧
      encodeAll [⟨.pushData1, some []⟩] = [0x4c, 0x00] ∧
      decode ([0x4c, 0x00] ++ [0x02, 0xaa]) = .error ⟨2, 0x02, 2, 1⟩ := by
  have ha : decode [0x4c, 0x00] = .ok [⟨.pushData1, some []⟩] := by with_unfolding_all rfl
  have hb : decode [0x02, 0xaa] = .error ⟨0, 0x02, 2, 1⟩ := by with_unfolding_all rfl
  obtain ⟨hiff, happend⟩ := decode_bijective
  exact ⟨ha, ((hiff _ _).mp ha).2, (happend _ _ ha _).2 _ hb⟩

end Instruction

namespace Script

open Instruction

variable {s t : Script} {l l' : List Instruction}

lemma instructions_ok_iff :
    s.instructions = .ok l ↔ (∀ i ∈ l, i.WellFormed) ∧ encodeAll l = s.bytes := decode_ok_iff

lemma instructions_append (hs : s.instructions = .ok l) (ht : t.instructions = .ok l') :
    instructions ⟨s.bytes ++ t.bytes⟩ = .ok (l ++ l') := by
  rw [instructions, decode_append hs, show decode t.bytes = .ok l' from ht]
  rfl

end Script

end BitcoinTx
