import BitcoinTx.Proofs.Script.Multisig
import BitcoinTx.Proofs.Script.Names
import BitcoinTx.Proofs.Script.PushForms
import BitcoinTx.Proofs.Text.Hex

/-! Scripts that are written as text are read back when each push of data is the shortest one, and what is
read from a text is such a script. -/

namespace BitcoinTx

open Instruction Outcome

lemma Opcode.operand_of_bare {o : Opcode} (h : ¬ o.IsDataPush) : o.operand = .none := by
  simp only [IsDataPush, operand, pushData1, pushData2, pushData4, data75] at *
  grind

namespace Instruction

/-- A push of data is the one that `push` gives for its data. -/
def Canonical (i : Instruction) : Prop := ∀ data, i.data = some data → push data = .ok i

variable {i : Instruction} {data : Bytes}

lemma wellFormed_op {o : Opcode} (h : o.operand = .none) : (op o).WellFormed := by
  simp [WellFormed, op, h]

lemma encode_op {o : Opcode} (h : o.operand = .none) : (op o).encode = [o] := by
  simp [encode, op, content, Opcode.lengthBytes, h]

lemma canonical_op (o : Opcode) : (op o).Canonical := by
  intro data h
  cases h

lemma canonical_pushing (h : data.length < 2 ^ 32) : (pushing data).Canonical := by
  intro d hd
  have hdata := content_pushing data
  rw [content, hd, Option.getD_some] at hdata
  subst hdata
  exact push_ok_iff.mpr ⟨h, rfl⟩

lemma Canonical.cases (hi : i.Canonical) (hw : i.WellFormed) :
    i = op i.opcode ∧ ¬ i.opcode.IsDataPush ∨
      ∃ data, data ≠ [] ∧ data.length < 2 ^ 32 ∧ i = pushing data ∧ i.data = some data ∧
        i.opcode.IsDataPush := by
  cases hd : i.data with
  | none =>
    refine .inl ⟨?_, fun hpush => ?_⟩
    · rw [op, ← hd]
    · rw [(hw.carries hpush).1] at hd
      cases hd
  | some data =>
    obtain ⟨hlt, hp⟩ := push_ok_iff.mp (hi data hd)
    have hne : data ≠ [] := by
      rintro rfl
      rw [← hp] at hd
      cases hd
    obtain ⟨o, ho, hpush, -⟩ := pushing_spec hne hlt
    refine .inr ⟨data, hne, hlt, hp.symm, rfl, ?_⟩
    rw [← hp, ho]
    exact hpush

end Instruction

namespace Script

variable {s t : Script} {i : Instruction} {l : List Instruction} {data : Bytes}

lemma pushToken_name (s : Script) (o : Opcode) : s.pushToken o.name = s.pushOpcodes [o] := by
  have hne := o.name_not_mem
  simp only [Opcode.otherSpellings, List.mem_cons, List.not_mem_nil, or_false, not_or] at hne
  obtain ⟨hzero, hfalse, hminus, htrue⟩ := hne
  rw [pushToken, if_neg (not_or.mpr ⟨hzero, hfalse⟩), if_neg hminus, if_neg htrue,
    if_pos o.isName_name, Opcode.ofName?_name]

lemma pushToken_hex (s : Script) (data : Bytes) : s.pushToken (Hex.encode data) = s.pushData data := by
  -- hexadecimal text has no capital letter, no sign and an even length
  have hchar : ∀ c ∉ Hex.hexDigits, ∀ token : String, c ∈ token.toList → Hex.encode data ≠ token := by
    rintro c hc token hmem rfl
    exact hc (Hex.mem_encode hmem)
  have hzero : Hex.encode data ≠ "0" := by
    intro h
    have hlength := Hex.length_encode data
    rw [h] at hlength
    change 1 = _ at hlength
    omega
  have hname : isName (Hex.encode data) = false := by
    rw [Bool.eq_false_iff, isName, ne_eq, List.isPrefixOf_iff_prefix]
    intro h
    exact hchar 'O' (by decide) _ (h.subset (by decide)) rfl
  have hfalse := hchar 'O' (by decide) "OP_FALSE" (by decide)
  have hminus := hchar '-' (by decide) "-1" (by decide)
  have htrue := hchar 'O' (by decide) "OP_TRUE" (by decide)
  rw [pushToken, if_neg (not_or.mpr ⟨hzero, hfalse⟩), if_neg hminus, if_neg htrue, hname,
    if_neg (by decide), pushHex, Hex.decode_encode]

lemma isWord_hex (hdata : data ≠ []) : Text.IsWord (Hex.encode data) := by
  have hblank : Hex.hexDigits.all (! Text.isBlank ·) := by decide
  refine ⟨fun hnil => ?_, fun c hc => ?_⟩
  · have hlength := Hex.length_encode data
    rw [hnil, List.length_nil] at hlength
    have hpos := List.length_pos_iff.mpr hdata
    omega
  · simpa using List.all_eq_true.mp hblank c (Hex.mem_encode hc)

lemma pushToken_asm (s : Script) (hi : i.Canonical) (hw : i.WellFormed) :
    s.pushToken i.asm = .ok ⟨s.bytes ++ i.encode⟩ ∧ Text.IsWord i.asm := by
  obtain ⟨hop, hbare⟩ | ⟨data, hne, hlt, hp, hd, hpush⟩ := hi.cases hw
  · have hasm : i.asm = i.opcode.name := by
      rw [hop]
      rfl
    have hencode : i.encode = [i.opcode] := by
      rw [hop]
      exact encode_op (Opcode.operand_of_bare hbare)
    rw [hasm, pushToken_name, hencode]
    exact ⟨pushOpcodes_ok_iff.mpr ⟨by simpa using hbare, rfl⟩, i.opcode.isWord_name⟩
  · have hasm : i.asm = Hex.encode data := by
      rw [asm, hd]
      exact if_pos hpush
    rw [hasm, pushToken_hex, hp]
    exact ⟨pushData_ok_iff.mpr ⟨hlt, rfl⟩, isWord_hex hne⟩

lemma foldlM_pushToken (hl : ∀ i ∈ l, i.WellFormed) (hc : ∀ i ∈ l, i.Canonical) (s : Script) :
    (l.map asm).foldlM pushToken s = .ok ⟨s.bytes ++ encodeAll l⟩ := by
  induction l generalizing s with
  | nil =>
    rw [encodeAll, List.flatMap_nil, List.append_nil]
    rfl
  | cons i l ih =>
    obtain ⟨hi, hl⟩ := List.forall_mem_cons.mp hl
    obtain ⟨hci, hc⟩ := List.forall_mem_cons.mp hc
    rw [List.map_cons, List.foldlM_cons, (pushToken_asm s hci hi).1, except_ok_bind, ih hl hc,
      encodeAll_cons, List.append_assoc]

lemma ofAsm_of_canonical (hs : s.instructions = .ok l) (hc : ∀ i ∈ l, i.Canonical) :
    ofAsm s.toAsm = .ok s := by
  obtain ⟨hl, hb⟩ := instructions_ok_iff.mp hs
  have hwords : ∀ w ∈ l.map asm, Text.IsWord w :=
    List.forall_mem_map.mpr fun i hi => (pushToken_asm s (hc i hi) (hl i hi)).2
  rw [toAsm, hs]
  change ofAsm (" ".intercalate (l.map asm)) = _
  rw [ofAsm, Text.words_intercalate hwords, foldlM_pushToken hl hc]
  exact congrArg (fun b => Except.ok (Script.mk b)) hb

lemma pushToken_ok {token : String} (h : s.pushToken token = .ok t) :
    ∃ i : Instruction, i.WellFormed ∧ i.Canonical ∧ t = ⟨s.bytes ++ i.encode⟩ := by
  have hbare : ∀ o : Opcode, s.pushOpcodes [o] = .ok t →
      ∃ i : Instruction, i.WellFormed ∧ i.Canonical ∧ t = ⟨s.bytes ++ i.encode⟩ := by
    intro o ho
    obtain ⟨hmem, rfl⟩ := pushOpcodes_ok_iff.mp ho
    have hoperand := Opcode.operand_of_bare (hmem o List.mem_cons_self)
    exact ⟨op o, wellFormed_op hoperand, canonical_op o, by rw [encode_op hoperand]⟩
  rw [pushToken] at h
  split at h
  · exact hbare _ h
  split at h
  · exact hbare _ h
  split at h
  · exact hbare _ h
  split at h
  · split at h
    · exact hbare _ h
    · cases h
  · rw [pushHex] at h
    split at h
    · cases h
    · obtain ⟨hlt, rfl⟩ := pushData_ok_iff.mp h
      exact ⟨_, pushing_wellFormed hlt, canonical_pushing hlt, rfl⟩

lemma foldlM_pushToken_ok {tokens : List String} (h : tokens.foldlM pushToken s = .ok t) :
    ∃ l : List Instruction, (∀ i ∈ l, i.WellFormed) ∧ (∀ i ∈ l, i.Canonical) ∧
      t = ⟨s.bytes ++ encodeAll l⟩ := by
  induction tokens generalizing s with
  | nil =>
    obtain rfl := Except.ok.inj h
    exact ⟨[], by simp, by simp, by simp [encodeAll]⟩
  | cons token tokens ih =>
    rw [List.foldlM_cons, except_bind_ok] at h
    obtain ⟨u, hu, h⟩ := h
    obtain ⟨i, hi, hci, rfl⟩ := pushToken_ok hu
    obtain ⟨l, hl, hc, rfl⟩ := ih h
    refine ⟨i :: l, List.forall_mem_cons.mpr ⟨hi, hl⟩, List.forall_mem_cons.mpr ⟨hci, hc⟩, ?_⟩
    rw [encodeAll_cons, List.append_assoc]

lemma instructions_of_ofAsm {text : String} (h : ofAsm text = .ok s) :
    ∃ l, s.instructions = .ok l ∧ ∀ i ∈ l, i.Canonical := by
  obtain ⟨l, hl, hc, rfl⟩ := foldlM_pushToken_ok h
  exact ⟨l, instructions_ok_iff.mpr ⟨hl, rfl⟩, hc⟩

/-- A script that is read from a text is read again from the text it is written as, and so is every script
whose pushes of data are those that `push` gives for their data. -/
theorem ofAsm_toAsm :
    (∀ text s, ofAsm text = .ok s → ofAsm s.toAsm = .ok s) ∧
      ∀ s l, s.instructions = .ok l →
        (∀ i ∈ l, ∀ data, i.data = some data → push data = .ok i) → ofAsm s.toAsm = .ok s := by
  constructor
  · intro text s h
    obtain ⟨l, hl, hc⟩ := instructions_of_ofAsm h
    exact ofAsm_of_canonical hl hc
  · intro s l hl hc
    exact ofAsm_of_canonical hl hc

def spelled : Script := ⟨[0x00, 0x4f, 0x51, 0x02, 0xab, 0xcd, 0x01, 0x00]⟩

def longPush : List Instruction := [op .one, pushing (List.replicate 80 0)]

theorem ofAsm_toAsm_spelled :
    ofAsm "0 -1 OP_TRUE ABcd 00" = .ok spelled ∧ ofAsm spelled.toAsm = .ok spelled ∧
      (ofInstructions longPush).instructions = .ok longPush ∧
      ofAsm (ofInstructions longPush).toAsm = .ok (ofInstructions longPush) := by
  have hspelled : ofAsm "0 -1 OP_TRUE ABcd 00" = .ok spelled := by decide
  have hlt : (List.replicate 80 (0 : UInt8)).length < 2 ^ 32 := by decide
  have hwell : ∀ i ∈ longPush, i.WellFormed :=
    List.forall_mem_cons.mpr ⟨wellFormed_op rfl, List.forall_mem_singleton.mpr (pushing_wellFormed hlt)⟩
  have hcanonical : ∀ i ∈ longPush, i.Canonical :=
    List.forall_mem_cons.mpr ⟨canonical_op .one, List.forall_mem_singleton.mpr (canonical_pushing hlt)⟩
  have hlong : (ofInstructions longPush).instructions = .ok longPush :=
    instructions_ok_iff.mpr ⟨hwell, rfl⟩
  exact ⟨hspelled, ofAsm_toAsm.1 _ _ hspelled, hlong, ofAsm_toAsm.2 _ _ hlong hcanonical⟩

end Script

end BitcoinTx
