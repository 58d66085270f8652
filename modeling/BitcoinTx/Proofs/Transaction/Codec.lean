import BitcoinTx.Proofs.Transaction.Layout

/-! Transactions are read back from the bytes they are written as, and there is no other way of
writing them but longer forms of the counts. -/

namespace BitcoinTx

open WirePart

namespace Transaction

/-- The counts and sizes fit the longest form of a number, as those of anything held in memory do. -/
structure Addressable (tx : Transaction) : Prop where
  inputs : tx.inputs.length < 2 ^ 64
  outputs : tx.outputs.length < 2 ^ 64
  unlocking : ∀ i ∈ tx.inputs, i.unlocking.size < 2 ^ 64
  locking : ∀ o ∈ tx.outputs, o.script.size < 2 ^ 64
  witnesses : ∀ i ∈ tx.inputs, i.witness.length < 2 ^ 64
  items : ∀ i ∈ tx.inputs, ∀ x ∈ i.witness, x.length < 2 ^ 64

variable {tx : Transaction} {b : Bytes}

instance : Decidable tx.Addressable :=
  decidable_of_iff
    (tx.inputs.length < 2 ^ 64 ∧ tx.outputs.length < 2 ^ 64 ∧
      (∀ i ∈ tx.inputs, i.unlocking.size < 2 ^ 64) ∧ (∀ o ∈ tx.outputs, o.script.size < 2 ^ 64) ∧
        (∀ i ∈ tx.inputs, i.witness.length < 2 ^ 64) ∧
          ∀ i ∈ tx.inputs, ∀ x ∈ i.witness, x.length < 2 ^ 64)
    ⟨fun ⟨hi, ho, hu, hl, hw, hx⟩ => ⟨hi, ho, hu, hl, hw, hx⟩,
      fun ⟨hi, ho, hu, hl, hw, hx⟩ => ⟨hi, ho, hu, hl, hw, hx⟩⟩

lemma hasWitness_withoutWitness : tx.withoutWitness.hasWitness = false := by
  simp [hasWitness, withoutWitness, Input.hasWitness, Input.withoutWitness]

lemma encode_withoutWitness : tx.withoutWitness.encode = tx.encodeBase := by
  rw [encode, hasWitness_withoutWitness, if_neg (by decide), encodeBase, encodeBase, encodeInputs,
    encodeInputs, withoutWitness, List.length_map, List.flatMap_map]
  rfl

lemma Readable.withoutWitness (h : tx.Readable) : tx.withoutWitness.Readable where
  spent := List.forall_mem_map.mpr h.spent
  outputs hnil := h.outputs (List.map_eq_nil_iff.mp hnil)

lemma Addressable.withoutWitness (h : tx.Addressable) : tx.withoutWitness.Addressable where
  inputs := by
    rw [Transaction.withoutWitness, List.length_map]
    exact h.inputs
  outputs := h.outputs
  unlocking := List.forall_mem_map.mpr h.unlocking
  locking := h.locking
  witnesses := List.forall_mem_map.mpr fun _ _ => (by decide : 0 < 2 ^ 64)
  items := List.forall_mem_map.mpr fun _ _ _ hx => by cases hx

lemma Addressable.lt (h : tx.Addressable) {n : Nat} (hn : count n ∈ tx.layout) : n < 2 ^ 64 := by
  simp only [layout, List.mem_cons, List.mem_append, List.mem_flatMap, reduceCtorEq,
    List.not_mem_nil, false_or, or_false] at hn
  rcases hn with hn | ⟨i, hi, hn⟩ | hn | ⟨o, ho, hn⟩ | hn
  · exact Nat.lt_of_le_of_lt (count_mem_inputCountLayout hn) h.inputs
  · exact Input.count_mem_layout hn ▸ h.unlocking i hi
  · exact count_eq_outputCountLayout hn ▸ h.outputs
  · exact Output.count_mem_layout hn ▸ h.locking o ho
  · rw [witnessLayout] at hn
    split at hn
    · obtain ⟨i, hi, hn⟩ := List.mem_flatMap.mp hn
      rcases Input.count_mem_witnessLayout hn with rfl | ⟨x, hx, rfl⟩
      · exact h.witnesses i hi
      · exact h.items i hi x hx
    · cases hn

lemma ofBytes_of_counts (h : tx.Readable) (hn : ∀ n, count n ∈ tx.layout → n < 2 ^ 64) :
    ofBytes tx.encode = .ok tx := by
  have hlead : Leads tx.layout (encodeAll tx.layout ++ []) [] := leads_encodeAll hn
  rw [List.append_nil, encodeAll_layout h] at hlead
  exact ofBytes_ok_iff.mpr ⟨h, hlead⟩

theorem ofBytes_encode (hspent : ∀ i ∈ tx.inputs, i.spent = none)
    (hform : tx.inputs ≠ [] ∨ tx.outputs = []) (hsize : tx.Addressable) :
    ofBytes tx.encode = .ok tx ∧ ofBytes tx.encodeBase = .ok tx.withoutWitness := by
  have h : tx.Readable := ⟨hspent, hform.neg_resolve_left⟩
  constructor
  · exact ofBytes_of_counts h fun _ => hsize.lt
  · rw [← encode_withoutWitness]
    exact ofBytes_of_counts h.withoutWitness fun _ => hsize.withoutWitness.lt

end Transaction

def mixedSpend : Transaction where
  version := 2
  lockTime := 7
  inputs :=
    [{ Input.unsigned ⟨.zero, 0⟩ Input.finalSequence with unlocking := ⟨[Opcode.one]⟩ },
      { Input.unsigned ⟨.zero, 1⟩ 0 with witness := [[], [0xaa]] }]
  outputs := [⟨900, ⟨[Opcode.one]⟩⟩]

lemma addressable_mixedSpend : mixedSpend.Addressable := by
  constructor <;> decide

theorem ofBytes_encode_mixedSpend : mixedSpend.Addressable ∧
    Transaction.ofBytes mixedSpend.encode = .ok mixedSpend ∧
      Transaction.ofBytes mixedSpend.encodeBase = .ok mixedSpend.withoutWitness :=
  ⟨addressable_mixedSpend,
    Transaction.ofBytes_encode (by decide) (.inl (by decide)) addressable_mixedSpend⟩

namespace Transaction

/-- An accepted byte string is the layout of its transaction with longer forms of the counts, if
anything; so it is no shorter than what is written, and the same if it is no longer. -/
theorem ofBytes_canonical (h : ofBytes b = .ok tx) :
    Leads tx.layout b [] ∧ tx.encode.length ≤ b.length ∧
      (b.length = tx.encode.length → b = tx.encode) ∧ ofBytes tx.encode = .ok tx := by
  obtain ⟨hr, hlead⟩ := ofBytes_ok_iff.mp h
  have henc := encodeAll_layout hr
  refine ⟨hlead, ?_, fun hb => ?_, ofBytes_of_counts hr fun _ => hlead.lt⟩
  · rw [← henc]
    exact hlead.length_le
  · rw [← henc] at hb ⊢
    simpa using hlead.eq_encodeAll hb.symm

end Transaction

def paddedSpend : Bytes :=
  leBytes 4 2 ++ [0xfd, 0, 0, Transaction.witnessFlag, 0xfe, 2, 0, 0, 0] ++
    mixedSpend.inputs.flatMap Input.encode ++ mixedSpend.encodeOutputs ++
      [0, 0xff, 2, 0, 0, 0, 0, 0, 0, 0, 0, 1, 0xaa] ++ leBytes 4 7

theorem ofBytes_canonical_paddedSpend : Transaction.ofBytes paddedSpend = .ok mixedSpend ∧
    Leads mixedSpend.layout paddedSpend [] ∧ mixedSpend.encode.length < paddedSpend.length ∧
      Transaction.ofBytes mixedSpend.encode = .ok mixedSpend := by
  have h : Transaction.ofBytes paddedSpend = .ok mixedSpend := by decide +kernel
  obtain ⟨hlead, -, -, hencode⟩ := Transaction.ofBytes_canonical h
  exact ⟨h, hlead, by decide +kernel, hencode⟩

end BitcoinTx
