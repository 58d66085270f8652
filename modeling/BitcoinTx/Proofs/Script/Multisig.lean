import BitcoinTx.Proofs.Script.Pushes

/-! The instructions of a script that asks for signatures of several keys. -/

namespace BitcoinTx

open Instruction Outcome

def Opcode.ofCount (n : Nat) : Opcode := UInt8.ofNat (0x50 + n)

lemma Opcode.ofCount_spec {n : Nat} (h₀ : 0 < n) (h : n ≤ 16) : ofSmall? n = some (ofCount n) ∧
    (ofCount n).operand = .none ∧ (ofCount n).IsPush ∧ ¬ (ofCount n).IsDataPush ∧
      (ofCount n).small? = some n := by
  have hall : ∀ n ≤ 16, 0 < n → ofSmall? n = some (ofCount n) ∧ (ofCount n).operand = .none ∧
      (ofCount n).IsPush ∧ ¬ (ofCount n).IsDataPush ∧ (ofCount n).small? = some n := by decide
  exact hall n h h₀

namespace Instruction

variable {i : Instruction} {l : List Instruction}

lemma length_content_le (hi : i ∈ l) : i.content.length ≤ (encodeAll l).length := by
  have hcontent : i.content.length ≤ i.encode.length := by
    rw [encode, List.length_append]
    omega
  have hencode := (List.sublist_flatten_of_mem (List.mem_map_of_mem (f := encode) hi)).length_le
  exact Nat.le_trans hcontent hencode

end Instruction

namespace Script

def multisigPushes (required : Nat) (keys : List Bytes) : List Instruction :=
  op (.ofCount required) :: keys.map pushing ++ [op (.ofCount keys.length)]

def multisigProgram (required : Nat) (keys : List Bytes) : List Instruction :=
  multisigPushes required keys ++ [op .checkMultiSig]

variable {s t r : Script} {ops : List Opcode} {required : Nat} {keys : List Bytes}

lemma pushOpcodes_ok_iff :
    s.pushOpcodes ops = .ok t ↔ (∀ o ∈ ops, ¬ o.IsDataPush) ∧ ⟨s.bytes ++ ops⟩ = t := by
  rw [pushOpcodes]
  cases hf : ops.find? (·.IsDataPush) with
  | none =>
    rw [List.find?_eq_none] at hf
    simp only [decide_eq_true_eq] at hf
    exact ⟨fun h => ⟨hf, Except.ok.inj h⟩, fun h => congrArg Except.ok h.2⟩
  | some o =>
    have ho := List.find?_some hf
    simp only [reduceCtorEq, false_iff, not_and]
    intro h
    exact absurd (of_decide_eq_true ho) (h o (List.mem_of_find?_eq_some hf))

lemma multisig_ok (h : multisig required keys = .ok r) :
    0 < required ∧ required ≤ keys.length ∧ keys.length ≤ 16 ∧
      (∀ k ∈ keys, k.length < 2 ^ 32) ∧ ⟨encodeAll (multisigProgram required keys)⟩ = r := by
  rw [multisig] at h
  split at h
  · cases h
  split at h
  · cases h
  next h₀ hle =>
  by_cases hmax : keys.length ≤ 16
  · obtain ⟨hm, hbm, -⟩ := Opcode.ofCount_spec (Nat.pos_of_ne_zero h₀) (by omega : required ≤ 16)
    obtain ⟨hn, hbn, -⟩ := Opcode.ofCount_spec (by omega) hmax
    rw [hm, hn] at h
    simp only [except_bind_ok, pushAll_ok_iff, pushOpcodes_ok_iff] at h
    obtain ⟨_, ⟨hk, rfl⟩, -, rfl⟩ := h
    refine ⟨by omega, by omega, hmax, hk, ?_⟩
    simp [multisigProgram, multisigPushes, encodeAll, encode, op, content, Opcode.lengthBytes, hbm,
      hbn]
    rfl
  · have hn : Opcode.ofSmall? keys.length = none := by
      rw [Opcode.ofSmall?, if_neg (by omega), if_neg hmax]
    rw [hn] at h
    split at h
    · next h' => cases h'
    · cases h

lemma instructions_multisig (h : multisig required keys = .ok r) :
    r.instructions = .ok (multisigProgram required keys) := by
  obtain ⟨h₀, hle, hmax, hk, rfl⟩ := multisig_ok h
  have hcount {n : Nat} (h₀ : 0 < n) (h : n ≤ 16) : (op (.ofCount n)).WellFormed := by
    rw [WellFormed, op, (Opcode.ofCount_spec h₀ h).2.1]
  refine instructions_ok_iff.mpr ⟨?_, rfl⟩
  simp only [multisigProgram, multisigPushes, List.forall_mem_append, List.forall_mem_cons,
    List.forall_mem_map]
  exact ⟨⟨⟨hcount h₀ (by omega), fun k hm => pushing_wellFormed (hk k hm)⟩,
    hcount (by omega) hmax, by simp⟩, rfl, by simp⟩

end Script

end BitcoinTx
