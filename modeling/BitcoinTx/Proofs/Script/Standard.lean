import BitcoinTx.Proofs.Script.Codec
import BitcoinTx.Template

/-! The instructions of the standard locking scripts, by which the scripts are told apart. -/

namespace BitcoinTx

open Instruction

namespace Script

def p2pkhProgram (h : Hash160) : List Instruction :=
  [op .dup, op .hash160, ⟨.data20, some h.val⟩, op .equalVerify, op .checkSig]

def p2shProgram (h : Hash160) : List Instruction :=
  [op .hash160, ⟨.data20, some h.val⟩, op .equal]

lemma wellFormed_data20 (h : Hash160) : WellFormed ⟨.data20, some h.val⟩ :=
  ⟨h.val, rfl, h.property⟩

lemma wellFormed_data32 (h : Hash256) : WellFormed ⟨.data32, some h.val⟩ :=
  ⟨h.val, rfl, h.property⟩

lemma instructions_p2pkh (h : Hash160) : (p2pkh h).instructions = .ok (p2pkhProgram h) := by
  refine instructions_ok_iff.mpr ⟨?_, rfl⟩
  simp only [p2pkhProgram, List.forall_mem_cons]
  exact ⟨rfl, rfl, wellFormed_data20 h, rfl, rfl, by simp⟩

lemma instructions_p2sh (h : Hash160) : (p2sh h).instructions = .ok (p2shProgram h) := by
  refine instructions_ok_iff.mpr ⟨?_, rfl⟩
  simp only [p2shProgram, List.forall_mem_cons]
  exact ⟨rfl, wellFormed_data20 h, rfl, by simp⟩

lemma instructions_p2wpkh (h : Hash160) :
    (witnessProgram h.val).instructions = .ok [op .zero, ⟨.data20, some h.val⟩] := by
  refine instructions_ok_iff.mpr ⟨?_, ?_⟩
  · simp only [List.forall_mem_cons]
    exact ⟨rfl, wellFormed_data20 h, by simp⟩
  · change Opcode.zero :: Opcode.data20 :: (h.val ++ []) = (witnessProgram h.val).bytes
    rw [List.append_nil, witnessProgram, h.property]
    rfl

lemma instructions_p2wsh (h : Hash256) :
    (witnessProgram h.val).instructions = .ok [op .zero, ⟨.data32, some h.val⟩] := by
  refine instructions_ok_iff.mpr ⟨?_, ?_⟩
  · simp only [List.forall_mem_cons]
    exact ⟨rfl, wellFormed_data32 h, by simp⟩
  · change Opcode.zero :: Opcode.data32 :: (h.val ++ []) = (witnessProgram h.val).bytes
    rw [List.append_nil, witnessProgram, h.property]
    rfl

@[simp] lemma size_p2sh (h : Hash160) : (p2sh h).size = 23 := by
  simp [p2sh, size, h.property]

@[simp] lemma size_p2pkh (h : Hash160) : (p2pkh h).size = 25 := by
  simp [p2pkh, size, h.property]

@[simp] lemma isP2sh_p2sh (h : Hash160) : (p2sh h).isP2sh = true := by
  have hd : (p2sh h).bytes.drop 22 = [Opcode.equal] := by
    change (h.val ++ [Opcode.equal]).drop 20 = [Opcode.equal]
    exact List.drop_left' h.property
  simp only [isP2sh, hd, size_p2sh]
  rfl

@[simp] lemma isP2sh_p2pkh (h : Hash160) : (p2pkh h).isP2sh = false := by
  simp [isP2sh]

end Script

lemma Template.ofLockingScript_lockingScript (t : Template) :
    ofLockingScript t.lockingScript = .ok t := by
  rw [ofLockingScript]
  cases t with
  | p2pkh h =>
    simp only [lockingScript, Script.instructions_p2pkh]
    simp [Script.p2pkhProgram, ofInstructions?, op, content, ofPayload?]
  | p2sh h =>
    simp only [lockingScript, Script.instructions_p2sh]
    simp [Script.p2shProgram, ofInstructions?, op, content, ofPayload?]
  | p2wpkh h =>
    simp only [lockingScript, Script.instructions_p2wpkh]
    simp [ofInstructions?, op, content, ofPayload?]
  | p2wsh h =>
    have hne : Opcode.data32 ≠ Opcode.data20 := by decide
    simp only [lockingScript, Script.instructions_p2wsh]
    simp [ofInstructions?, op, content, ofPayload?, hne]

end BitcoinTx
