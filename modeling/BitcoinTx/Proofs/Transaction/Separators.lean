import BitcoinTx.Proofs.Script.Removal
import BitcoinTx.Proofs.Transaction.Signing
import BitcoinTx.Proofs.Wire.ReadBack

/-! Code separators and the digest that signatures outside witnesses cover. They are taken out of a locking
script before it is hashed, and are hashed with a redeem script. -/

namespace BitcoinTx

open Outcome

namespace SpentOutput

/-- The script that stands for the unlocking scripts in what is signed. -/
def codeSource (s : SpentOutput) : Script := s.redeem.getD s.finalLocking

def withCodeSource (s : SpentOutput) (source : Script) : SpentOutput :=
  if s.redeem.isSome then { s with redeem := some source } else { s with finalLocking := source }

variable {s : SpentOutput} (source : Script)

lemma legacyCode_of_redeem {r : Script} (h : s.redeem = some r) :
    s.legacyCode = .ok r ∧ (s.withCodeSource source).legacyCode = .ok source := by
  simp [legacyCode, withCodeSource, h]

lemma legacyCode_of_locking (h : s.redeem = none) :
    s.legacyCode = s.codeSource.removeOpcode .codeSeparator ∧
      (s.withCodeSource source).legacyCode = source.removeOpcode .codeSeparator := by
  simp [legacyCode, withCodeSource, codeSource, h]

end SpentOutput

namespace Transaction

def replaceCodeSource (tx : Transaction) (index : Nat) (source : Script) : Transaction :=
  tx.modifyInput index fun i => { i with spent := i.spent.map (·.withCodeSource source) }

section

variable {tx : Transaction} {index : Nat} {s : SpentOutput} {source code code' : Script} {t : HashType}

lemma lt_length_of_spent (hs : tx.spent index = .ok s) : index < tx.inputs.length := by
  obtain ⟨i, hi, -⟩ := spent_ok.mp hs
  rw [input] at hi
  cases hget : tx.inputs[index]? with
  | none =>
    rw [hget] at hi
    cases hi
  | some j => exact (List.getElem?_eq_some_iff.mp hget).1

lemma spent_replaceCodeSource (hs : tx.spent index = .ok s) :
    (tx.replaceCodeSource index source).spent index = .ok (s.withCodeSource source) := by
  obtain ⟨i, hi, hs⟩ := spent_ok.mp hs
  refine spent_ok.mpr ⟨{ i with spent := i.spent.map (·.withCodeSource source) }, ?_, ?_⟩
  · rw [replaceCodeSource, input_modifyInput, hi]
    rfl
  · rw [hs]
    rfl

section

variable {f : Input → Input} (ho : ∀ i, (f i).outpoint = i.outpoint)
  (hs : ∀ i, (f i).sequence = i.sequence)

include ho hs

lemma encodeForSigning_modify (position k : Nat) (l : List Input) :
    encodeForSigning t index code position (l.modify k f) =
      encodeForSigning t index code position l := by
  induction l generalizing position k with
  | nil => rw [List.modify_nil]
  | cons i l ih =>
    cases k with
    | zero =>
      rw [List.modify_zero_cons, encodeForSigning, encodeForSigning, encodeSigned, encodeSigned,
        encodeUnsigned, encodeUnsigned, ho, hs]
    | succ k => rw [List.modify_succ_cons, encodeForSigning, encodeForSigning, ih]

lemma legacyPreimage_modifyInput :
    (tx.modifyInput index f).legacyPreimage index code t = tx.legacyPreimage index code t := by
  have hinputs : (tx.modifyInput index f).legacyInputs index code t =
      tx.legacyInputs index code t := by
    rw [legacyInputs, legacyInputs, modifyInput, encodeForSigning_modify ho hs, List.length_modify,
      List.getElem?_modify_eq]
    cases tx.inputs[index]? with
    | none => rfl
    | some i => simp [encodeSigned, ho, hs]
  rw [legacyPreimage, legacyPreimage, hinputs]
  rfl

end

lemma encodeForSigning_of_lt {position : Nat} (h : index < position) (code code' : Script)
    (l : List Input) :
    encodeForSigning t index code position l = encodeForSigning t index code' position l := by
  induction l generalizing position with
  | nil => rfl
  | cons i l ih =>
    rw [encodeForSigning, encodeForSigning, if_neg (by omega), if_neg (by omega), ih (by omega)]

lemma legacyPreimage_replaceCodeSource :
    (tx.replaceCodeSource index source).legacyPreimage index code t = tx.legacyPreimage index code t :=
  legacyPreimage_modifyInput (fun _ => rfl) fun _ => rfl

/-- The script code is written once, between bytes that do not depend on it. -/
lemma exists_encodeForSigning (t : HashType) {position : Nat} {l : List Input} (h : position ≤ index)
    (hl : index < position + l.length) : ∃ a b : Bytes, ∀ code : Script,
      encodeForSigning t index code position l = a ++ varBytes code.bytes ++ b := by
  induction l generalizing position with
  | nil =>
    rw [List.length_nil] at hl
    omega
  | cons i l ih =>
    by_cases hi : position = index
    · subst hi
      refine ⟨i.outpoint.encode, leBytes 4 i.sequence.toNat ++
        encodeForSigning t position .empty (position + 1) l, fun code => ?_⟩
      rw [encodeForSigning, if_pos rfl, encodeSigned,
        encodeForSigning_of_lt (Nat.lt_succ_self position) code .empty]
      simp only [List.append_assoc]
    · rw [List.length_cons] at hl
      obtain ⟨a, b, hab⟩ := ih (by omega : position + 1 ≤ index) (by omega)
      refine ⟨encodeUnsigned t i ++ a, b, fun code => ?_⟩
      rw [encodeForSigning, if_neg hi, hab]
      simp only [List.append_assoc]

lemma exists_legacyInputs (t : HashType) (hi : index < tx.inputs.length) : ∃ a b : Bytes,
    ∀ code : Script, tx.legacyInputs index code t = a ++ varBytes code.bytes ++ b := by
  cases hpay : t.anyoneCanPay with
  | true =>
    refine ⟨CompactSize.encode 1 ++ tx.inputs[index].outpoint.encode,
      leBytes 4 tx.inputs[index].sequence.toNat, fun code => ?_⟩
    simp [legacyInputs, hpay, hi, encodeSigned]
  | false =>
    obtain ⟨a, b, hab⟩ := exists_encodeForSigning t (Nat.zero_le index)
      (by rwa [Nat.zero_add] : index < 0 + tx.inputs.length)
    refine ⟨CompactSize.encode tx.inputs.length ++ a, b, fun code => ?_⟩
    simp [legacyInputs, hpay, hab]

lemma legacyPreimage_code_eq_iff (hi : index < tx.inputs.length) :
    tx.legacyPreimage index code t = tx.legacyPreimage index code' t ↔ code = code' := by
  obtain ⟨a, b, hab⟩ := exists_legacyInputs t hi
  have hcode : code.bytes = code'.bytes ↔ code = code' := ⟨fun h => congrArg Script.mk h, fun h => by rw [h]⟩
  rw [legacyPreimage, legacyPreimage, List.append_cancel_right_eq, List.append_cancel_right_eq,
    List.append_cancel_right_eq, List.append_cancel_left_eq, hab, hab, List.append_cancel_right_eq,
    List.append_cancel_left_eq, varBytes_eq_iff, hcode]

end

variable [Crypto] {tx : Transaction} {index : Nat} {s : SpentOutput} {code : Script} {t : HashType}
  {l : List Instruction}

lemma legacyDigest_of_code (hs : tx.spent index = .ok s) (hc : s.legacyCode = .ok code) :
    tx.legacyDigest index t = .ok (if t.base = .single ∧ tx.outputs.length ≤ index then noOutputDigest
      else sha256d (tx.legacyPreimage index code t)) := by
  rw [legacyDigest, hs, except_ok_bind]
  split
  · rfl
  · rw [hc]
    rfl

lemma legacyDigest_replaceCodeSource {source : Script} (hs : tx.spent index = .ok s)
    (hc : (s.withCodeSource source).legacyCode = .ok code) :
    (tx.replaceCodeSource index source).legacyDigest index t =
      .ok (if t.base = .single ∧ tx.outputs.length ≤ index then noOutputDigest
        else sha256d (tx.legacyPreimage index code t)) := by
  rw [legacyDigest_of_code (spent_replaceCodeSource hs) hc, legacyPreimage_replaceCodeSource]
  rfl

/-- The digest is that of the locking script without its separators. A redeem script is hashed as it is: when
an instruction of it is a separator and the signed output exists, another text is hashed than without it. -/
theorem legacyDigest_separators (hs : tx.spent index = .ok s)
    (hl : s.codeSource.instructions = .ok l) :
    ∃ code d d', s.codeSource.removeOpcode .codeSeparator = .ok code ∧
      tx.legacyDigest index t = .ok d ∧
      (tx.replaceCodeSource index code).legacyDigest index t = .ok d' ∧
      (s.redeem = none ∨ (∀ i ∈ l, i.opcode ≠ .codeSeparator) ∨
        t.base = .single ∧ tx.outputs.length ≤ index → d' = d) ∧
      ∀ r, s.redeem = some r → ¬ (t.base = .single ∧ tx.outputs.length ≤ index) →
        d = sha256d (tx.legacyPreimage index r t) ∧ d' = sha256d (tx.legacyPreimage index code t) ∧
          (tx.legacyPreimage index r t = tx.legacyPreimage index code t ↔
            ∀ i ∈ l, i.opcode ≠ .codeSeparator) := by
  have hcode : s.codeSource.removeOpcode .codeSeparator = .ok _ :=
    Script.removeOpcode_of_instructions hl
  have htwice := Script.removeOpcode_removed .codeSeparator hl
  generalize Script.ofInstructions (l.filter (·.opcode ≠ .codeSeparator)) = code at hcode htwice
  have hi : index < tx.inputs.length := lt_length_of_spent hs
  cases hr : s.redeem with
  | none =>
    obtain ⟨hlegacy, hlegacy'⟩ := SpentOutput.legacyCode_of_locking code hr
    refine ⟨code, _, _, hcode, legacyDigest_of_code hs (hlegacy.trans hcode),
      legacyDigest_replaceCodeSource hs (hlegacy'.trans htwice), fun _ => rfl, fun r h => ?_⟩
    cases h
  | some r =>
    obtain ⟨hlegacy, hlegacy'⟩ := SpentOutput.legacyCode_of_redeem code hr
    have hsource : s.codeSource = r := by rw [SpentOutput.codeSource, hr, Option.getD_some]
    rw [hsource] at hl hcode
    have hsame : r = code ↔ ∀ i ∈ l, i.opcode ≠ .codeSeparator := by
      rw [← Script.removeOpcode_eq_self_iff hl, hcode, Except.ok.injEq, eq_comm]
    refine ⟨code, _, _, by rwa [hsource], legacyDigest_of_code hs hlegacy,
      legacyDigest_replaceCodeSource hs hlegacy', fun h => ?_, fun r' h hout => ?_⟩
    · obtain h | h | h := h
      · cases h
      · rw [hsame.mpr h]
      · rw [if_pos h, if_pos h]
    · obtain rfl := Option.some.inj h
      rw [if_neg hout, if_neg hout]
      exact ⟨rfl, rfl, (legacyPreimage_code_eq_iff hi).trans hsame⟩

end Transaction

def separatorCoin : Coin := ⟨⟨.zero, 0⟩, 1000, "a91401ffdbc4962317e7b7ba4d52adfa5a5d355168e987"⟩

def separatorHash : Hash160 := .ofNat 20 0x01ffdbc4962317e7b7ba4d52adfa5a5d355168e9

def separatorSpent : SpentOutput where
  value := 1000
  template := .p2sh separatorHash
  rawLocking := .p2sh separatorHash
  finalLocking := .p2sh separatorHash
  redeem := some ⟨[Opcode.codeSeparator, Opcode.one]⟩
  scriptCode := none

def separatedSpent : SpentOutput :=
  { separatorSpent with finalLocking := Script.separated, redeem := none }

def separatedSpend : Transaction where
  version := 1
  lockTime := 0
  inputs := [separatedSpent, separatorSpent].map fun s =>
    { outpoint := ⟨.zero, 0⟩, sequence := Input.finalSequence, unlocking := .empty, witness := [], spent := some s }
  outputs := [⟨900, ⟨[Opcode.one]⟩⟩]

theorem legacyDigest_separators_separatedSpend :
    (∃ code, Script.separated.removeOpcode .codeSeparator = .ok code ∧
      @Transaction.legacyDigest Crypto.bitcoin (separatedSpend.replaceCodeSource 0 code) 0 ⟨1⟩ =
        @Transaction.legacyDigest Crypto.bitcoin separatedSpend 0 ⟨1⟩) ∧
      separatedSpend.legacyPreimage 1 ⟨[Opcode.codeSeparator, Opcode.one]⟩ ⟨1⟩ ≠
        separatedSpend.legacyPreimage 1 ⟨[Opcode.one]⟩ ⟨1⟩ := by
  have hl : Script.instructions ⟨[Opcode.codeSeparator, Opcode.one]⟩ =
      .ok [.op .codeSeparator, .op .one] := by with_unfolding_all rfl
  have hrest : Script.removeOpcode ⟨[Opcode.codeSeparator, Opcode.one]⟩ .codeSeparator =
      .ok ⟨[Opcode.one]⟩ := by with_unfolding_all rfl
  constructor
  · obtain ⟨code, d, d', hcode, hd, hd', heq, -⟩ := @Transaction.legacyDigest_separators Crypto.bitcoin
      separatedSpend 0 separatedSpent ⟨1⟩ _ rfl Script.instructions_separated
    refine ⟨code, hcode, ?_⟩
    rw [hd, hd', heq (.inl rfl)]
  · obtain ⟨code, d, d', hcode, -, -, -, hne⟩ := @Transaction.legacyDigest_separators Crypto.bitcoin
      separatedSpend 1 separatorSpent ⟨1⟩ _ rfl hl
    obtain rfl := Except.ok.inj (hrest.symm.trans hcode)
    intro heq
    have hnone := (hne _ rfl (by decide)).2.2.mp heq
    exact hnone (.op .codeSeparator) List.mem_cons_self rfl

/-- The digest of an input whose redeem script starts with a separator is not that of the script without
it. -/
theorem legacyDigest_redeem_separator :
    @SpentOutput.ofCoin Crypto.bitcoin separatorCoin (some ⟨[Opcode.codeSeparator, Opcode.one]⟩) =
        .ok separatorSpent ∧
      separatedSpend.spent 1 = .ok separatorSpent ∧
      separatorSpent.codeSource.removeOpcode .codeSeparator = .ok ⟨[Opcode.one]⟩ ∧
      @Transaction.legacyDigest Crypto.bitcoin (separatedSpend.replaceCodeSource 1 ⟨[Opcode.one]⟩) 1 ⟨1⟩ ≠
        @Transaction.legacyDigest Crypto.bitcoin separatedSpend 1 ⟨1⟩ := by
  exact ⟨by decide +kernel, rfl, by with_unfolding_all rfl, by decide +kernel⟩

end BitcoinTx
