import BitcoinTx.Proofs.Transaction.LegacyCopy

/-! What a hash type commits to. Signatures outside witnesses cover the same bytes for two transactions
exactly when the transactions agree on it. -/

namespace BitcoinTx

lemma map_eq_map_iff {α β : Type} {l l' : List α} {f : α → β} :
    l.map f = l'.map f ↔ ∀ k : Nat, l[k]?.map f = l'[k]?.map f := by
  simp only [List.ext_getElem?_iff, List.getElem?_map]

def Input.written (i : Input) : Input := { i with witness := [], spent := none }

namespace Transaction

def written (tx : Transaction) : Transaction := { tx with inputs := tx.inputs.map Input.written }

section

variable {tx tx' : Transaction}

lemma encode_written : tx.written.encode = tx.encodeBase := by
  have hw : tx.written.hasWitness = false := by
    simp [hasWitness, written, Input.hasWitness, Input.written]
  rw [encode, hw, if_neg (by decide), encodeBase, encodeBase, encodeInputs, encodeInputs, written,
    List.length_map, List.flatMap_map]
  rfl

lemma ofBytes_encodeBase (hne : tx.inputs ≠ []) (h : tx.written.Addressable) :
    ofBytes tx.encodeBase = .ok tx.written := by
  have hr : tx.written.Readable := by
    refine ⟨List.forall_mem_map.mpr fun _ _ => rfl, fun hnil => ?_⟩
    exact absurd (List.map_eq_nil_iff.mp hnil) hne
  rw [← encode_written]
  exact ofBytes_of_counts hr fun _ => h.lt

lemma encodeBase_eq_iff (hne : tx.inputs ≠ []) (hne' : tx'.inputs ≠ []) (h : tx.written.Addressable)
    (h' : tx'.written.Addressable) : tx.encodeBase = tx'.encodeBase ↔ tx.written = tx'.written := by
  constructor
  · intro heq
    have hread := ofBytes_encodeBase hne h
    rw [heq, ofBytes_encodeBase hne' h'] at hread
    exact (Except.ok.inj hread).symm
  · intro heq
    rw [← encode_written, heq, encode_written]

end

structure AgreesOnInputs (tx tx' : Transaction) (index : Nat) (t : HashType) : Prop where
  outpoint : tx.inputs[index]?.map Input.outpoint = tx'.inputs[index]?.map Input.outpoint
  sequence : tx.inputs[index]?.map Input.sequence = tx'.inputs[index]?.map Input.sequence
  outpoints : t.anyoneCanPay = false →
    tx.inputs.map Input.outpoint = tx'.inputs.map Input.outpoint
  sequences : t.anyoneCanPay = false → t.base = .all →
    tx.inputs.map Input.sequence = tx'.inputs.map Input.sequence

structure AgreesOnOutputs (tx tx' : Transaction) (index : Nat) (t : HashType) : Prop where
  outputs : t.base = .all → tx.outputs = tx'.outputs
  output : t.base = .single → tx.outputs[index]? = tx'.outputs[index]?

/-- The transactions agree on what a hash type commits to for the input at `index`. -/
structure Agrees (tx tx' : Transaction) (index : Nat) (t : HashType) : Prop extends
    AgreesOnInputs tx tx' index t, AgreesOnOutputs tx tx' index t where
  version : tx.version = tx'.version
  lockTime : tx.lockTime = tx'.lockTime

variable {tx tx' : Transaction} {index : Nat} {code code' : Script} {t : HashType}

lemma written_copyInput (k : Nat) (i : Input) : (copyInput index code t k i).written =
    ⟨i.outpoint, if k = index ∨ t.base = .all then i.sequence else 0,
      if k = index then code else .empty, [], none⟩ := by
  by_cases h : k = index
  · simp [copyInput, h, Input.written]
  · simp [copyInput, h, Input.written]

lemma mem_copyInputs {i : Input} (h : i ∈ tx.copyInputs index code t) :
    i.unlocking = code ∨ i.unlocking = .empty := by
  have hmem : i ∈ tx.inputs.mapIdx (copyInput index code t) := by
    rw [copyInputs] at h
    split at h
    · exact List.mem_of_getElem? (Option.mem_toList.mp h)
    · exact h
  obtain ⟨k, hk, rfl⟩ := List.mem_mapIdx.mp hmem
  by_cases hindex : k = index
  · exact .inl (by rw [copyInput, if_pos hindex])
  · exact .inr (by rw [copyInput, if_neg hindex])

lemma length_copyInputs (hi : index < tx.inputs.length) :
    (tx.copyInputs index code t).length = if t.anyoneCanPay then 1 else tx.inputs.length := by
  cases hpay : t.anyoneCanPay with
  | true =>
    rw [copyInputs_of_anyoneCanPay hi hpay]
    rfl
  | false =>
    rw [copyInputs_of_all_inputs hpay, List.length_mapIdx]
    rfl

lemma copyInputs_ne_nil (hi : index < tx.inputs.length) : tx.copyInputs index code t ≠ [] := by
  apply List.ne_nil_of_length_pos
  rw [length_copyInputs hi]
  split <;> omega

lemma length_copyOutputs_le : (tx.copyOutputs index t).length ≤ tx.outputs.length := by
  cases hbase : t.base with
  | all => simp [copyOutputs, hbase]
  | none => simp [copyOutputs, hbase]
  | single =>
    simp only [copyOutputs, hbase, List.length_mapIdx, List.length_take]
    exact Nat.min_le_right _ _

lemma mem_copyOutputs {o : Output} (h : o ∈ tx.copyOutputs index t) :
    o = blankOutput ∨ o ∈ tx.outputs := by
  cases hbase : t.base with
  | all => simp_all [copyOutputs]
  | none => simp [copyOutputs, hbase] at h
  | single =>
    simp only [copyOutputs, hbase] at h
    obtain ⟨k, hk, rfl⟩ := List.mem_mapIdx.mp h
    by_cases hlt : k < index
    · exact .inl (if_pos hlt)
    · rw [if_neg hlt]
      exact .inr (List.mem_of_mem_take (List.getElem_mem hk))

lemma Addressable.written_signedCopy (h : tx.Addressable) (hi : index < tx.inputs.length)
    (hc : code.size < 2 ^ 64) : (tx.signedCopy index code t).written.Addressable where
  inputs := by
    have htx := h.inputs
    rw [written, List.length_map, signedCopy, length_copyInputs hi]
    split
    · decide
    · exact htx
  outputs := Nat.lt_of_le_of_lt length_copyOutputs_le h.outputs
  unlocking := by
    have hsize : ∀ i ∈ tx.copyInputs index code t, i.unlocking.size < 2 ^ 64 := by
      intro i hmem
      rcases mem_copyInputs hmem with hcode | hempty
      · rwa [hcode]
      · rw [hempty]
        decide
    exact List.forall_mem_map.mpr hsize
  locking := by
    intro o hmem
    rcases mem_copyOutputs hmem with rfl | ho
    · decide
    · exact h.locking o ho
  witnesses := List.forall_mem_map.mpr fun _ _ => (by decide : 0 < 2 ^ 64)
  items := List.forall_mem_map.mpr fun _ _ _ hx => by cases hx

lemma agreesOnInputs_of_anyoneCanPay (hi : index < tx.inputs.length)
    (hi' : index < tx'.inputs.length) (hpay : t.anyoneCanPay = true) :
    tx.AgreesOnInputs tx' index t ↔ tx.inputs[index].outpoint = tx'.inputs[index].outpoint ∧
      tx.inputs[index].sequence = tx'.inputs[index].sequence := by
  constructor
  · intro h
    have ho := h.outpoint
    have hs := h.sequence
    rw [List.getElem?_eq_getElem hi, List.getElem?_eq_getElem hi'] at ho hs
    exact ⟨Option.some.inj ho, Option.some.inj hs⟩
  · rintro ⟨ho, hs⟩
    have hfalse : t.anyoneCanPay ≠ false := by simp [hpay]
    refine ⟨?_, ?_, fun h => absurd h hfalse, fun h => absurd h hfalse⟩
    · simp [hi, hi', ho]
    · simp [hi, hi', hs]

lemma agreesOnInputs_of_written (hi : index < tx.inputs.length)
    (h : ∀ k, tx.inputs[k]?.map (fun i => (copyInput index code t k i).written) =
      tx'.inputs[k]?.map fun i => (copyInput index code' t k i).written) :
    tx.AgreesOnInputs tx' index t ∧ code = code' := by
  simp only [written_copyInput] at h
  have houtpoint (k : Nat) : tx.inputs[k]?.map Input.outpoint = tx'.inputs[k]?.map Input.outpoint := by
    have := congrArg (Option.map Input.outpoint) (h k)
    simpa only [Option.map_map, Function.comp_def] using this
  have hsequence (k : Nat) (hk : k = index ∨ t.base = .all) :
      tx.inputs[k]?.map Input.sequence = tx'.inputs[k]?.map Input.sequence := by
    have := congrArg (Option.map Input.sequence) (h k)
    simpa only [Option.map_map, Function.comp_def, hk, if_true] using this
  refine ⟨⟨houtpoint index, hsequence index (.inl rfl), ?_, ?_⟩, ?_⟩
  · exact fun _ => map_eq_map_iff.mpr houtpoint
  · exact fun _ hbase => map_eq_map_iff.mpr fun k => hsequence k (.inr hbase)
  · have := congrArg (Option.map Input.unlocking) (h index)
    rw [List.getElem?_eq_getElem hi] at this
    cases hi' : tx'.inputs[index]? with
    | none => simp [hi'] at this
    | some i => simpa [hi'] using this

lemma AgreesOnInputs.written_copyInput (h : tx.AgreesOnInputs tx' index t)
    (hpay : t.anyoneCanPay = false) (k : Nat) :
    tx.inputs[k]?.map (fun i => (copyInput index code t k i).written) =
      tx'.inputs[k]?.map fun i => (copyInput index code t k i).written := by
  have houtpoint := map_eq_map_iff.mp (h.outpoints hpay) k
  have hsequence (hk : k = index ∨ t.base = .all) :
      tx.inputs[k]?.map Input.sequence = tx'.inputs[k]?.map Input.sequence := by
    rcases hk with rfl | hbase
    · exact h.sequence
    · exact map_eq_map_iff.mp (h.sequences hpay hbase) k
  simp only [Transaction.written_copyInput]
  cases hi : tx.inputs[k]? with
  | none =>
    rw [hi] at houtpoint
    rw [Option.map_eq_none_iff.mp houtpoint.symm]
  | some i =>
    cases hi' : tx'.inputs[k]? with
    | none => simp [hi, hi'] at houtpoint
    | some i' =>
      simp only [hi, hi', Option.map_some, Option.some.injEq] at houtpoint hsequence ⊢
      by_cases hk : k = index ∨ t.base = .all
      · rw [if_pos hk, if_pos hk, houtpoint, hsequence hk]
      · rw [if_neg hk, if_neg hk, houtpoint]

lemma written_copyInputs_eq_iff (hi : index < tx.inputs.length) (hi' : index < tx'.inputs.length) :
    (tx.copyInputs index code t).map Input.written = (tx'.copyInputs index code' t).map Input.written ↔
      tx.AgreesOnInputs tx' index t ∧ code = code' := by
  cases hpay : t.anyoneCanPay with
  | true =>
    rw [copyInputs_of_anyoneCanPay hi hpay, copyInputs_of_anyoneCanPay hi' hpay,
      agreesOnInputs_of_anyoneCanPay hi hi' hpay]
    simp [Input.written, and_assoc]
  | false =>
    rw [copyInputs_of_all_inputs hpay, copyInputs_of_all_inputs hpay, List.ext_getElem?_iff]
    simp only [List.getElem?_map, List.getElem?_mapIdx, Option.map_map, Function.comp_def]
    constructor
    · exact agreesOnInputs_of_written hi
    · rintro ⟨h, rfl⟩
      exact h.written_copyInput hpay

lemma copyOutputs_eq_iff (h : t.base = .single → index < tx.outputs.length)
    (h' : t.base = .single → index < tx'.outputs.length) :
    tx.copyOutputs index t = tx'.copyOutputs index t ↔ tx.AgreesOnOutputs tx' index t := by
  cases hbase : t.base with
  | all =>
    simp only [copyOutputs, hbase]
    exact ⟨fun ho => ⟨fun _ => ho, fun hs => by simp [hbase] at hs⟩, fun ha => ha.outputs hbase⟩
  | none =>
    simp only [copyOutputs, hbase, true_iff]
    exact ⟨fun ha => by simp [hbase] at ha, fun hs => by simp [hbase] at hs⟩
  | single =>
    have ho := List.getElem?_eq_getElem (h hbase)
    have ho' := List.getElem?_eq_getElem (h' hbase)
    rw [copyOutputs_of_single (h hbase) hbase, copyOutputs_of_single (h' hbase) hbase,
      List.append_cancel_left_eq, List.singleton_inj]
    constructor
    · intro heq
      exact ⟨fun ha => by simp [hbase] at ha, fun _ => by rw [ho, ho', heq]⟩
    · intro ha
      have heq := ha.output hbase
      rw [ho, ho'] at heq
      exact Option.some.inj heq

lemma written_signedCopy_eq_iff (hi : index < tx.inputs.length) (hi' : index < tx'.inputs.length)
    (ho : t.base = .single → index < tx.outputs.length)
    (ho' : t.base = .single → index < tx'.outputs.length) :
    (tx.signedCopy index code t).written = (tx'.signedCopy index code' t).written ↔
      tx.Agrees tx' index t ∧ code = code' := by
  have houtputs := copyOutputs_eq_iff ho ho'
  simp only [written, signedCopy, mk.injEq, written_copyInputs_eq_iff hi hi', houtputs]
  constructor
  · rintro ⟨hv, hl, ⟨hin, hc⟩, hout⟩
    exact ⟨⟨hin, hout, hv, hl⟩, hc⟩
  · rintro ⟨h, hc⟩
    exact ⟨h.version, h.lockTime, ⟨h.toAgreesOnInputs, hc⟩, h.toAgreesOnOutputs⟩

lemma legacyPreimage_eq_iff_encodeBase (hi : index < tx.inputs.length)
    (hi' : index < tx'.inputs.length) (ho : t.base = .single → index < tx.outputs.length)
    (ho' : t.base = .single → index < tx'.outputs.length) :
    tx.legacyPreimage index code t = tx'.legacyPreimage index code' t ↔
      (tx.signedCopy index code t).encodeBase = (tx'.signedCopy index code' t).encodeBase := by
  rw [legacyPreimage, legacyPreimage, List.append_cancel_right_eq, ← encodeInputs_signedCopy hi,
    ← encodeInputs_signedCopy hi', ← encodeOutputs_signedCopy ho, ← encodeOutputs_signedCopy ho']
  rfl

theorem legacyPreimage_eq_iff (hi : index < tx.inputs.length) (hi' : index < tx'.inputs.length)
    (ho : t.base = .single → index < tx.outputs.length)
    (ho' : t.base = .single → index < tx'.outputs.length) (hs : tx.Addressable)
    (hs' : tx'.Addressable) (hc : code.size < 2 ^ 64) (hc' : code'.size < 2 ^ 64) :
    tx.legacyPreimage index code t = tx'.legacyPreimage index code' t ↔
      tx.Agrees tx' index t ∧ code = code' := by
  have hw := hs.written_signedCopy (t := t) hi hc
  have hw' := hs'.written_signedCopy (t := t) hi' hc'
  rw [legacyPreimage_eq_iff_encodeBase hi hi' ho ho',
    encodeBase_eq_iff (copyInputs_ne_nil hi) (copyInputs_ne_nil hi') hw hw',
    written_signedCopy_eq_iff hi hi' ho ho']

end Transaction

def divertedSpend : Transaction :=
  { pairedSpend with
    inputs := pairedSpend.inputs.modify 0 ({ · with unlocking := .empty, witness := [[7]], sequence := 5 })
    outputs := pairedSpend.outputs.take 1 }

lemma addressable_pairedSpend : pairedSpend.Addressable := by
  constructor <;> decide

lemma addressable_divertedSpend : divertedSpend.Addressable := by
  constructor <;> decide

/-- Without outputs the transactions are the same to the signer, and with outputs they are not. -/
theorem legacyPreimage_eq_iff_divertedSpend :
    pairedSpend.legacyPreimage 1 ⟨[Opcode.dup]⟩ ⟨2⟩ =
        divertedSpend.legacyPreimage 1 ⟨[Opcode.dup]⟩ ⟨2⟩ ∧
      pairedSpend.legacyPreimage 1 ⟨[Opcode.dup]⟩ ⟨1⟩ ≠
        divertedSpend.legacyPreimage 1 ⟨[Opcode.dup]⟩ ⟨1⟩ := by
  have hiff (t : HashType) (ht : t.base ≠ .single) :
      pairedSpend.legacyPreimage 1 ⟨[Opcode.dup]⟩ t = divertedSpend.legacyPreimage 1 ⟨[Opcode.dup]⟩ t ↔
        pairedSpend.Agrees divertedSpend 1 t ∧ (⟨[Opcode.dup]⟩ : Script) = ⟨[Opcode.dup]⟩ :=
    Transaction.legacyPreimage_eq_iff (by decide) (by decide) (fun h => absurd h ht)
      (fun h => absurd h ht) addressable_pairedSpend addressable_divertedSpend (by decide) (by decide)
  constructor
  · refine (hiff ⟨2⟩ (by decide)).mpr ⟨?_, rfl⟩
    refine ⟨⟨rfl, rfl, fun _ => rfl, fun _ h => ?_⟩, ⟨fun h => ?_, fun h => ?_⟩, rfl, rfl⟩
    all_goals exact absurd h (by decide)
  · intro heq
    have hout := ((hiff ⟨1⟩ (by decide)).mp heq).1.outputs (by decide)
    exact absurd hout (by decide)

end BitcoinTx
