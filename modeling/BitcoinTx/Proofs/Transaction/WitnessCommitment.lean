import BitcoinTx.Proofs.Transaction.Commitment
import BitcoinTx.Proofs.Transaction.History
import BitcoinTx.Proofs.Wire.ReadBack

/-! Signatures in witnesses commit to the same as those outside, and to the spent value. That holds as
far as the hash tells apart what is hashed of the two transactions. -/

namespace BitcoinTx

open Outcome WirePart

lemma Outpoint.readsBack (o : Outpoint) : ReadsBack Outpoint.read Outpoint.encode o := fun _ =>
  Outpoint.read_leads.mpr (leads_raw_singleton.mpr rfl)

lemma Output.readsBack {o : Output} (h : o.script.size < 2 ^ 64) :
    ReadsBack Output.read Output.encode o := by
  intro rest
  have hlead : Leads o.layout (encodeAll o.layout ++ rest) rest := by
    apply leads_encodeAll
    intro n hn
    rw [count_mem_layout hn]
    exact h
  rw [encodeAll_layout] at hlead
  exact read_leads.mpr hlead

namespace Transaction

section

variable {tx tx' : Transaction} {index : Nat} {t : HashType}

lemma encodePrevouts_eq_iff : tx.encodePrevouts = tx'.encodePrevouts ↔
    tx.inputs.map Input.outpoint = tx'.inputs.map Input.outpoint := by
  have hmap (tx : Transaction) :
      tx.encodePrevouts = (tx.inputs.map Input.outpoint).flatMap Outpoint.encode := by
    rw [encodePrevouts, List.flatMap_map]
  have hne (o : Outpoint) : o.encode ≠ [] := by
    apply List.ne_nil_of_length_pos
    rw [Outpoint.length_encode]
    decide
  rw [hmap, hmap]
  refine ⟨fun h => ?_, fun h => by rw [h]⟩
  exact ReadsBack.flatMap_inj hne (fun o _ => o.readsBack) (fun o _ => o.readsBack) h

lemma encodeSequences_eq_iff : tx.encodeSequences = tx'.encodeSequences ↔
    tx.inputs.map Input.sequence = tx'.inputs.map Input.sequence := by
  have hmap (tx : Transaction) :
      tx.encodeSequences = (tx.inputs.map Input.sequence).flatMap (leBytes 4 ·.toNat) := by
    rw [encodeSequences, List.flatMap_map]
  have hne (n : UInt32) : leBytes 4 n.toNat ≠ [] := List.cons_ne_nil _ _
  rw [hmap, hmap]
  refine ⟨fun h => ?_, fun h => by rw [h]⟩
  exact ReadsBack.flatMap_inj hne (fun n _ => readsBack_u32 n) (fun n _ => readsBack_u32 n) h

lemma encode_outputs_eq_iff (h : ∀ o ∈ tx.outputs, o.script.size < 2 ^ 64)
    (h' : ∀ o ∈ tx'.outputs, o.script.size < 2 ^ 64) :
    tx.outputs.flatMap Output.encode = tx'.outputs.flatMap Output.encode ↔
      tx.outputs = tx'.outputs := by
  have hne (o : Output) : o.encode ≠ [] := List.cons_ne_nil _ _
  refine ⟨fun heq => ?_, fun heq => by rw [heq]⟩
  exact ReadsBack.flatMap_inj hne (fun o ho => Output.readsBack (h o ho))
    (fun o ho => Output.readsBack (h' o ho)) heq

end

variable [Crypto] {tx tx' : Transaction} {index : Nat} {t : HashType}

def hashedParts (tx : Transaction) (index : Nat) : List Bytes :=
  [tx.encodePrevouts, tx.encodeSequences, tx.outputs.flatMap Output.encode] ++
    tx.outputs[index]?.toList.map Output.encode

/-- The hash neither confuses parts of the two transactions nor gives the zeros that stand for none. -/
structure HashesApart (tx tx' : Transaction) (index : Nat) : Prop where
  collision : ∀ x ∈ tx.hashedParts index, ∀ y ∈ tx'.hashedParts index, sha256d x = sha256d y → x = y
  zero : ∀ x ∈ tx.hashedParts index ++ tx'.hashedParts index, sha256d x ≠ .zero 32

lemma HashesApart.iff (h : HashesApart tx tx' index) {x y : Bytes} (hx : x ∈ tx.hashedParts index)
    (hy : y ∈ tx'.hashedParts index) : sha256d x = sha256d y ↔ x = y :=
  ⟨h.collision x hx y hy, fun heq => by rw [heq]⟩

lemma hashPrevouts_eq_iff (h : HashesApart tx tx' index) :
    hashPrevouts tx.midstate t = hashPrevouts tx'.midstate t ↔ (t.anyoneCanPay = false →
      tx.inputs.map Input.outpoint = tx'.inputs.map Input.outpoint) := by
  have hhash : tx.midstate.prevouts = tx'.midstate.prevouts ↔ _ :=
    h.iff (by simp [hashedParts]) (by simp [hashedParts])
  cases hpay : t.anyoneCanPay with
  | true => simp [hashPrevouts, hpay]
  | false =>
    simp only [hashPrevouts, hpay, Bool.false_eq_true, if_false, forall_const]
    rw [hhash, encodePrevouts_eq_iff]

lemma hashSequences_eq_iff (h : HashesApart tx tx' index) :
    hashSequences tx.midstate t = hashSequences tx'.midstate t ↔
      (t.anyoneCanPay = false → t.base = .all →
        tx.inputs.map Input.sequence = tx'.inputs.map Input.sequence) := by
  have hhash : tx.midstate.sequences = tx'.midstate.sequences ↔ _ :=
    h.iff (by simp [hashedParts]) (by simp [hashedParts])
  rw [encodeSequences_eq_iff] at hhash
  by_cases hzero : t.anyoneCanPay ∨ t.base ≠ .all
  · rw [hashSequences, hashSequences, if_pos hzero, if_pos hzero]
    refine ⟨fun _ hpay hbase => ?_, fun _ => rfl⟩
    simp [hpay, hbase] at hzero
  · rw [hashSequences, hashSequences, if_neg hzero, if_neg hzero, hhash]
    simp only [not_or, Bool.not_eq_true, not_not] at hzero
    simp [hzero]

lemma hashOutputs_eq_iff (h : HashesApart tx tx' index)
    (ho : ∀ o ∈ tx.outputs, o.script.size < 2 ^ 64)
    (ho' : ∀ o ∈ tx'.outputs, o.script.size < 2 ^ 64) :
    hashOutputs tx.midstate tx index t = hashOutputs tx'.midstate tx' index t ↔
      tx.AgreesOnOutputs tx' index t := by
  cases hbase : t.base with
  | all =>
    have hhash : tx.midstate.outputs = tx'.midstate.outputs ↔ _ :=
      h.iff (by simp [hashedParts]) (by simp [hashedParts])
    simp only [hashOutputs, hbase]
    rw [hhash, encode_outputs_eq_iff ho ho']
    exact ⟨fun heq => ⟨fun _ => heq, fun hs => by simp [hbase] at hs⟩, fun ha => ha.outputs hbase⟩
  | none =>
    simp only [hashOutputs, hbase, true_iff]
    exact ⟨fun ha => by simp [hbase] at ha, fun hs => by simp [hbase] at hs⟩
  | single =>
    have hagree : tx.AgreesOnOutputs tx' index t ↔ tx.outputs[index]? = tx'.outputs[index]? :=
      ⟨fun ha => ha.output hbase, fun heq => ⟨fun ha => by simp [hbase] at ha, fun _ => heq⟩⟩
    simp only [hashOutputs, hbase, hagree]
    cases hout : tx.outputs[index]? with
    | none =>
      cases hout' : tx'.outputs[index]? with
      | none => simp
      | some o' =>
        have hzero := h.zero o'.encode (by simp [hashedParts, hout'])
        simpa using hzero.symm
    | some o =>
      cases hout' : tx'.outputs[index]? with
      | none =>
        have hzero := h.zero o.encode (by simp [hashedParts, hout])
        simpa using hzero
      | some o' =>
        have hmem := ho o (List.mem_of_getElem? hout)
        have hmem' := ho' o' (List.mem_of_getElem? hout')
        simp only [Option.some.injEq]
        rw [h.iff (by simp [hashedParts, hout]) (by simp [hashedParts, hout']),
          (Output.readsBack hmem).eq_iff (Output.readsBack hmem')]

lemma witnessPreimage_of_spent {s : SpentOutput} (h : tx.spent index = .ok s) :
    ∃ i, tx.inputs[index]? = some i ∧ tx.witnessPreimage index t =
      .ok (leBytes 4 tx.version.toNat ++ (hashPrevouts tx.midstate t).val ++
        (hashSequences tx.midstate t).val ++ i.outpoint.encode ++ varBytes s.witnessCode.bytes ++
        leBytes 8 s.value.toNat ++ leBytes 4 i.sequence.toNat ++
        (hashOutputs tx.midstate tx index t).val ++ leBytes 4 tx.lockTime.toNat ++
        leBytes 4 t.word.toNat) := by
  obtain ⟨i, hi, -⟩ := spent_ok.mp h
  refine ⟨i, ?_, ?_⟩
  · rw [input] at hi
    cases hget : tx.inputs[index]? with
    | none => simp [hget] at hi
    | some j => simpa [hget] using hi
  · rw [witnessPreimage, witnessPreimageWith, hi, h]
    rfl

lemma exists_witnessPreimage_iff {s s' : SpentOutput} (hs : tx.spent index = .ok s)
    (hs' : tx'.spent index = .ok s') (ho : ∀ o ∈ tx.outputs, o.script.size < 2 ^ 64)
    (ho' : ∀ o ∈ tx'.outputs, o.script.size < 2 ^ 64) (hhash : HashesApart tx tx' index) :
    ∃ p p', tx.witnessPreimage index t = .ok p ∧ tx'.witnessPreimage index t = .ok p' ∧
      (p = p' ↔ tx.Agrees tx' index t ∧ s.value = s'.value ∧ s.witnessCode = s'.witnessCode) := by
  obtain ⟨i, hi, hp⟩ := witnessPreimage_of_spent (t := t) hs
  obtain ⟨i', hi', hp'⟩ := witnessPreimage_of_spent (t := t) hs'
  refine ⟨_, _, hp, hp', ?_⟩
  have hlength (h : Hash256) : h.val.length = 32 := h.property
  have hcode : s.witnessCode.bytes = s'.witnessCode.bytes ↔ s.witnessCode = s'.witnessCode :=
    ⟨fun h => congrArg Script.mk h, fun h => by rw [h]⟩
  simp only [List.append_assoc]
  rw [append_eq_iff_of_left (by simp), append_eq_iff_of_left (by simp [hlength]),
    append_eq_iff_of_left (by simp [hlength]), append_eq_iff_of_left (by simp),
    append_eq_iff_of_right (by simp [hlength]), append_eq_iff_of_left (by simp),
    append_eq_iff_of_left (by simp), append_eq_iff_of_left (by simp [hlength]),
    List.append_cancel_right_eq, leBytes_u32_eq_iff, Subtype.val_inj, Subtype.val_inj, Subtype.val_inj,
    hashPrevouts_eq_iff hhash, hashSequences_eq_iff hhash, hashOutputs_eq_iff hhash ho ho',
    i.outpoint.readsBack.eq_iff i'.outpoint.readsBack, varBytes_eq_iff, hcode, leBytes_u64_eq_iff,
    leBytes_u32_eq_iff, leBytes_u32_eq_iff]
  constructor
  · rintro ⟨hversion, hprevouts, hsequences, hout, hcode, hvalue, hseq, houtputs, hlock⟩
    refine ⟨⟨⟨?_, ?_, hprevouts, hsequences⟩, houtputs, hversion, hlock⟩, hvalue, hcode⟩
    · rw [hi, hi', Option.map_some, Option.map_some, hout]
    · rw [hi, hi', Option.map_some, Option.map_some, hseq]
  · rintro ⟨h, hvalue, hcode⟩
    have hout := h.outpoint
    have hseq := h.sequence
    rw [hi, hi'] at hout hseq
    exact ⟨h.version, h.outpoints, h.sequences, Option.some.inj hout, hcode, hvalue,
      Option.some.inj hseq, h.toAgreesOnOutputs, h.lockTime⟩

end Transaction

namespace CachedTransaction

section

variable [Crypto]

lemma reached_addInputs {v n : UInt32} {l l' : List Input} {k : List Output}
    (h : Reached { tx := ⟨v, n, l, k⟩ }) : Reached { tx := ⟨v, n, l ++ l', k⟩ } := by
  induction l' generalizing l with
  | nil => rwa [List.append_nil]
  | cons i l' ih =>
    have hadd : Reached { tx := ⟨v, n, l ++ [i], k⟩ } := h.call (.addInput i)
    have hrest := ih hadd
    rwa [List.append_assoc] at hrest

lemma reached_addOutputs {v n : UInt32} {l : List Input} {k k' : List Output}
    (h : Reached { tx := ⟨v, n, l, k⟩ }) : Reached { tx := ⟨v, n, l, k ++ k'⟩ } := by
  induction k' generalizing k with
  | nil => rwa [List.append_nil]
  | cons o k' ih =>
    have hadd : Reached { tx := ⟨v, n, l, k ++ [o]⟩ } := h.call (.addOutput o)
    have hrest := ih hadd
    rwa [List.append_assoc] at hrest

/-- Any transaction can be put together from calls, so those below are any two. -/
lemma reached_mk (tx : Transaction) : Reached { tx } := by
  have hnumbers : Reached { tx := ⟨tx.version, tx.lockTime, [], []⟩ } :=
    (Reached.empty.call (.setVersion tx.version)).call (.setLockTime tx.lockTime)
  exact reached_addOutputs (reached_addInputs hnumbers)

theorem Reached.witnessPreimage_eq_iff {c c' : CachedTransaction} {index : Nat} {t : HashType}
    {s s' : SpentOutput} (h : Reached c) (h' : Reached c') (hs : c.tx.spent index = .ok s)
    (hs' : c'.tx.spent index = .ok s') (ho : ∀ o ∈ c.tx.outputs, o.script.size < 2 ^ 64)
    (ho' : ∀ o ∈ c'.tx.outputs, o.script.size < 2 ^ 64)
    (hhash : c.tx.HashesApart c'.tx index) :
    ∃ p p', answer (witnessPreimage index t) c = .ok p ∧
      answer (witnessPreimage index t) c' = .ok p' ∧
      (p = p' ↔ c.tx.Agrees c'.tx index t ∧ s.value = s'.value ∧ s.witnessCode = s'.witnessCode) := by
  have hfresh {c : CachedTransaction} (h : Reached c) :
      answer (witnessPreimage index t) c = c.tx.witnessPreimage index t := by
    rw [(refines_witnessPreimage index t).answer_eq h.coherent, answer_reading]
  rw [hfresh h, hfresh h']
  exact Transaction.exists_witnessPreimage_iff hs hs' ho ho' hhash

end

def joinedSpend : CachedTransaction :=
  @replay Crypto.bitcoin
    [.modifyInput 0 ({ · with witness := [] }), .addInput (.unsigned ⟨.zero, 1⟩ 0), .midstate]
    replayedSpend

theorem witnessPreimage_eq_iff_joinedSpend :
    answer (@witnessPreimage Crypto.bitcoin 0 ⟨0x81⟩) replayedSpend =
        answer (@witnessPreimage Crypto.bitcoin 0 ⟨0x81⟩) joinedSpend ∧
      answer (@witnessPreimage Crypto.bitcoin 0 ⟨1⟩) replayedSpend ≠
        answer (@witnessPreimage Crypto.bitcoin 0 ⟨1⟩) joinedSpend := by
  have h : @Reached Crypto.bitcoin replayedSpend :=
    @Reached.replay Crypto.bitcoin _ (@Reached.empty Crypto.bitcoin) _
  have h' : @Reached Crypto.bitcoin joinedSpend := @Reached.replay Crypto.bitcoin _ h _
  have hhash : @Transaction.HashesApart Crypto.bitcoin replayedSpend.tx joinedSpend.tx 0 :=
    @Transaction.HashesApart.mk Crypto.bitcoin _ _ _ (by decide +kernel) (by decide +kernel)
  have hiff (t : HashType) :=
    @Reached.witnessPreimage_eq_iff Crypto.bitcoin replayedSpend joinedSpend 0 t generatorSpent
      generatorSpent h h' rfl rfl (by decide +kernel) (by decide +kernel) hhash
  constructor
  · obtain ⟨p, p', hp, hp', heq⟩ := hiff ⟨0x81⟩
    rw [hp, hp', heq.mpr]
    refine ⟨⟨⟨rfl, rfl, fun hpay => ?_, fun hpay => ?_⟩, ⟨fun _ => rfl, fun _ => rfl⟩, rfl, rfl⟩, rfl, rfl⟩
    all_goals exact absurd hpay (by decide)
  · obtain ⟨p, p', hp, hp', heq⟩ := hiff ⟨1⟩
    intro hsame
    rw [hp, hp'] at hsame
    have hagree := (heq.mp (Except.ok.inj hsame)).1
    exact absurd (hagree.outpoints rfl) (by decide +kernel)

end CachedTransaction

end BitcoinTx
