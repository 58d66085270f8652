import BitcoinTx.Proofs.Wire.Layout
import BitcoinTx.Transaction.Decode
import Mathlib.Control.Monad.Basic

/-! The layout of transactions. A byte string reads as a transaction exactly when it is laid out as
one, with each count in any of its forms. -/

namespace BitcoinTx

open Outcome WirePart

lemma TransactionField.read_ok {α : Type} {field : TransactionField} {x : Reader α} {b rest : Bytes}
    {a : α} : field.read x b = .ok a rest ↔ x b = .ok a rest := by
  change EStateM.adaptExcept (TransactionError.decode field) x b = .ok a rest ↔ _
  rw [EStateM.adaptExcept]
  cases x b <;> simp

lemma TransactionField.read_error {α : Type} {field : TransactionField} {x : Reader α}
    {b rest : Bytes} {e : TransactionError} :
    field.read x b = .error e rest ↔ ∃ cause, x b = .error cause rest ∧ .decode field cause = e := by
  change EStateM.adaptExcept (TransactionError.decode field) x b = .error e rest ↔ _
  rw [EStateM.adaptExcept]
  cases x b with
  | ok a m => simp
  | error cause m =>
    simp only [EStateM.Result.error.injEq]
    constructor
    · rintro ⟨rfl, rfl⟩
      exact ⟨cause, ⟨rfl, rfl⟩, rfl⟩
    · rintro ⟨_, ⟨rfl, rfl⟩, rfl⟩
      exact ⟨rfl, rfl⟩

variable {b rest : Bytes} {n : Nat}

lemma Outpoint.read_leads {o : Outpoint} :
    Outpoint.read b = .ok o rest ↔ Leads [raw o.encode] b rest := by
  simp only [Outpoint.read, bind_ok, pure_ok, TransactionField.read_ok, Reader.fixed_ok,
    Reader.u32_ok, leads_raw_singleton]
  constructor
  · rintro ⟨t, _, rfl, n, _, rfl, rfl, rfl⟩
    exact (List.append_assoc ..).symm
  · rintro rfl
    exact ⟨o.txid.bytes, _, List.append_assoc .., o.index, _, rfl, rfl, rfl⟩

namespace Output

def layout (o : Output) : List WirePart := raw (leBytes 8 o.value.toNat) :: data o.script.bytes

@[simp] lemma encodeAll_layout (o : Output) : encodeAll o.layout = o.encode := by
  rw [layout, encodeAll_cons, encodeAll_data]
  rfl

lemma count_mem_layout {o : Output} (h : count n ∈ o.layout) : n = o.script.size := by
  simp only [layout, List.mem_cons, reduceCtorEq, false_or] at h
  exact count_mem_data h

lemma read_leads {o : Output} : Output.read b = .ok o rest ↔ Leads o.layout b rest := by
  simp only [Output.read, bind_ok, pure_ok, TransactionField.read_ok, Reader.u64_ok,
    Reader.varBytes_leads, layout, leads_raw]
  constructor
  · rintro ⟨n, m, rfl, x, _, hx, rfl, rfl⟩
    exact ⟨m, rfl, hx⟩
  · rintro ⟨m, rfl, hx⟩
    exact ⟨o.value, m, rfl, o.script.bytes, rest, hx, rfl, rfl⟩

end Output

namespace Input

def withoutWitness (i : Input) : Input := { i with witness := [] }

def layout (i : Input) : List WirePart :=
  raw i.outpoint.encode :: (data i.unlocking.bytes ++ [raw (leBytes 4 i.sequence.toNat)])

def witnessLayout (i : Input) : List WirePart := count i.witness.length :: i.witness.flatMap data

@[simp] lemma encodeAll_layout (i : Input) : encodeAll i.layout = i.encode := by
  simp [layout, encode, WirePart.encode]

@[simp] lemma encodeAll_witnessLayout (i : Input) : encodeAll i.witnessLayout = i.encodeWitness := by
  simp [witnessLayout, encodeAll_flatMap, encodeWitness, WirePart.encode]

lemma count_mem_layout {i : Input} (h : count n ∈ i.layout) : n = i.unlocking.size := by
  simp only [layout, List.mem_cons, List.mem_append, reduceCtorEq, List.not_mem_nil, false_or,
    or_false] at h
  exact count_mem_data h

lemma count_mem_witnessLayout {i : Input} (h : count n ∈ i.witnessLayout) :
    n = i.witness.length ∨ ∃ x ∈ i.witness, n = x.length := by
  rcases List.mem_cons.mp h with h | h
  · exact .inl (count.inj h)
  · obtain ⟨x, hx, h⟩ := List.mem_flatMap.mp h
    exact .inr ⟨x, hx, count_mem_data h⟩

lemma read_leads {i : Input} : Input.read b = .ok i rest ↔
    (i.witness = [] ∧ i.spent = none) ∧ Leads i.layout b rest := by
  simp only [Input.read, bind_ok, pure_ok, TransactionField.read_ok, Reader.u32_ok,
    Reader.varBytes_leads, Outpoint.read_leads, layout, leads_append, leads_raw, leads_nil,
    exists_eq_right]
  constructor
  · rintro ⟨o, m, rfl, x, _, hx, n, _, rfl, rfl, rfl⟩
    exact ⟨⟨rfl, rfl⟩, m, rfl, hx⟩
  · rintro ⟨⟨hw, hs⟩, m, rfl, hx⟩
    refine ⟨i.outpoint, m, rfl, i.unlocking.bytes, _, hx, i.sequence, _, rfl, ?_, rfl⟩
    rw [unsigned, ← hw, ← hs]

lemma readWitness_leads {i j : Input} : i.readWitness b = .ok j rest ↔
    j.withoutWitness = i.withoutWitness ∧ Leads j.witnessLayout b rest := by
  have hitem {b rest x : Bytes} : TransactionField.witnessItem.read Reader.varBytes b = .ok x rest ↔
      Leads (data x) b rest := by
    rw [TransactionField.read_ok, Reader.varBytes_leads]
  simp only [readWitness, bind_ok, pure_ok, TransactionField.read_ok, Reader.compactSize_leads,
    Reader.replicate_leads hitem, witnessLayout]
  constructor
  · rintro ⟨n, m, hn, w, _, ⟨rfl, hw⟩, rfl, rfl⟩
    exact ⟨rfl, leads_append.mpr ⟨m, hn, hw⟩⟩
  · rintro ⟨hij, h⟩
    obtain ⟨m, hn, hw⟩ := leads_append (l := [count j.witness.length]).mp h
    refine ⟨_, m, hn, j.witness, rest, ⟨rfl, hw⟩, ?_, rfl⟩
    have := congrArg (fun k : Input => { k with witness := j.witness }) hij
    exact this.symm

end Input

namespace Transaction

def withoutWitness (tx : Transaction) : Transaction :=
  { tx with inputs := tx.inputs.map Input.withoutWitness }

/-- The witness form starts with a second input count, which is zero, and the flag. -/
def inputCountLayout (tx : Transaction) : List WirePart :=
  if tx.hasWitness then [count 0, raw [witnessFlag], count tx.inputs.length]
  else [count tx.inputs.length]

/-- Behind no inputs, a longer form of zero would be taken for a flag. -/
def outputCountLayout (tx : Transaction) : WirePart :=
  if tx.inputs = [] then raw [0] else count tx.outputs.length

def witnessLayout (tx : Transaction) : List WirePart :=
  if tx.hasWitness then tx.inputs.flatMap Input.witnessLayout else []

def layout (tx : Transaction) : List WirePart :=
  raw (leBytes 4 tx.version.toNat) :: (tx.inputCountLayout ++ (tx.inputs.flatMap Input.layout ++
    (tx.outputCountLayout :: (tx.outputs.flatMap Output.layout ++
      (tx.witnessLayout ++ [raw (leBytes 4 tx.lockTime.toNat)])))))

/-- What can be read: coins do not travel, and no inputs in front of outputs look like the marker of
the witness form. -/
structure Readable (tx : Transaction) : Prop where
  spent : ∀ i ∈ tx.inputs, i.spent = none
  outputs : tx.inputs = [] → tx.outputs = []

variable {tx : Transaction} {w : Bool} {l l' : List Input}

lemma encode_outputCountLayout (h : tx.Readable) :
    tx.outputCountLayout.encode = CompactSize.encode tx.outputs.length := by
  rw [outputCountLayout]
  split
  · next hnil =>
    rw [h.outputs hnil]
    rfl
  · rfl

lemma encodeAll_layout (h : tx.Readable) : encodeAll tx.layout = tx.encode := by
  simp only [layout, inputCountLayout, witnessLayout, encodeAll_cons, encodeAll_append,
    encodeAll_flatMap, encode_outputCountLayout h]
  cases hw : tx.hasWitness
  · simp [encode, hw, encodeBase, encodeInputs, encodeOutputs, WirePart.encode]
  · have hzero : CompactSize.encode 0 = [witnessMarker] := rfl
    simp [encode, hw, encodeWitness, encodeInputs, encodeOutputs, WirePart.encode, hzero,
      encodeAll_flatMap]

lemma count_mem_inputCountLayout (h : count n ∈ tx.inputCountLayout) : n ≤ tx.inputs.length := by
  rw [inputCountLayout] at h
  split at h <;>
    simp only [List.mem_cons, count.injEq, reduceCtorEq, List.not_mem_nil, or_false, false_or] at h <;>
    omega

lemma count_eq_outputCountLayout (h : count n = tx.outputCountLayout) : n = tx.outputs.length := by
  rw [outputCountLayout] at h
  split at h
  · cases h
  · exact count.inj h

/-- What the byte behind an input count of zero, if there is one, leads to. -/
def readFlag : Option UInt8 → TransactionReader (Nat × Bool)
  | none => return (0, false)
  | some flag =>
    if flag = witnessFlag then do
      discard (TransactionField.witnessFlag.read Reader.u8)
      return (← TransactionField.inputCount.read Reader.compactSize, true)
    else if flag = 0 then return (0, false)
    else throw (.witnessFlag flag)

lemma readInputCount_eq : readInputCount =
    TransactionField.inputCount.read Reader.compactSize >>= fun count =>
      if count ≠ 0 then pure (count, false) else get >>= fun b => readFlag b.head? :=
  rfl

lemma readFlag_ok : readFlag b.head? b = .ok (n, w) rest ↔
    if w then Leads [raw [witnessFlag], count n] b rest
    else n = 0 ∧ b = rest ∧ ∀ x ∈ b.head?, x = 0 := by
  cases b with
  | nil =>
    rw [List.head?_nil, readFlag, pure_ok, Prod.mk.injEq]
    cases w
    · simp [eq_comm]
    · simp [leads_raw]
  | cons x b =>
    rw [List.head?_cons, readFlag]
    split
    · next hflag =>
      subst hflag
      simp only [bind_ok, discard_ok, pure_ok, TransactionField.read_ok, Reader.u8_ok,
        Reader.compactSize_leads, Prod.mk.injEq]
      constructor
      · rintro ⟨_, m, ⟨x, hx⟩, _, _, hn, ⟨rfl, rfl⟩, rfl⟩
        obtain ⟨-, rfl⟩ := List.cons.inj hx
        exact leads_raw_byte.mpr ⟨rfl, hn⟩
      · intro h
        cases w with
        | true =>
          obtain ⟨-, hn⟩ := leads_raw_byte.mp h
          exact ⟨(), b, ⟨_, rfl⟩, n, rest, hn, ⟨rfl, rfl⟩, rfl⟩
        | false =>
          have hzero : witnessFlag = 0 := h.2.2 _ rfl
          cases hzero
    split
    · next hzero =>
      rw [pure_ok, Prod.mk.injEq]
      subst hzero
      cases w
      · simp [eq_comm]
      · simp [leads_raw_byte, witnessFlag]
    · next hflag hzero =>
      rw [throw_ok, false_iff]
      cases w
      · simp [hzero]
      · simp [leads_raw_byte, hflag]

lemma readInputCount_ok : readInputCount b = .ok (n, w) rest ↔
    if w then Leads [count 0, raw [witnessFlag], count n] b rest
    else Leads [count n] b rest ∧ (n = 0 → ∀ x ∈ rest.head?, x = 0) := by
  rw [readInputCount_eq, bind_ok]
  simp only [TransactionField.read_ok, Reader.compactSize_leads]
  constructor
  · rintro ⟨k, m, hk, h⟩
    by_cases hzero : k = 0
    · subst hzero
      rw [if_neg (by decide), get_bind_ok, readFlag_ok] at h
      cases w with
      | true => exact leads_append.mpr ⟨m, hk, h⟩
      | false =>
        obtain ⟨rfl, rfl, hhead⟩ := h
        exact ⟨hk, fun _ => hhead⟩
    · rw [if_pos hzero, pure_ok] at h
      obtain ⟨hnw, rfl⟩ := h
      cases hnw
      exact ⟨hk, fun h => absurd h hzero⟩
  · intro h
    cases w with
    | true =>
      obtain ⟨m, hzero, h⟩ := leads_append (l := [count 0]).mp h
      exact ⟨0, m, hzero, readFlag_ok.mpr h⟩
    | false =>
      obtain ⟨hn, hhead⟩ := h
      refine ⟨n, rest, hn, ?_⟩
      by_cases hzero : n = 0
      · rw [if_neg (not_not.mpr hzero), hzero]
        exact readFlag_ok.mpr ⟨rfl, rfl, hhead hzero⟩
      · rw [if_pos hzero, pure_ok]
        exact ⟨rfl, rfl⟩

lemma mapM_readWitness_ok : l.mapM Input.readWitness b = .ok l' rest ↔
    l'.map Input.withoutWitness = l.map Input.withoutWitness ∧
      Leads (l'.flatMap Input.witnessLayout) b rest := by
  induction l generalizing b l' rest with
  | nil =>
    rw [List.mapM_nil, pure_ok, List.map_nil, List.map_eq_nil_iff]
    constructor
    · rintro ⟨rfl, rfl⟩
      exact ⟨rfl, .nil⟩
    · rintro ⟨rfl, h⟩
      exact ⟨rfl, leads_nil.mp h⟩
  | cons i l ih =>
    rw [List.mapM_cons]
    simp only [bind_ok, pure_ok, Input.readWitness_leads, ih]
    constructor
    · rintro ⟨j, m, ⟨hj, hm⟩, l', _, ⟨hl, hm'⟩, rfl, rfl⟩
      exact ⟨by rw [List.map_cons, List.map_cons, hj, hl], leads_append.mpr ⟨m, hm, hm'⟩⟩
    · rintro ⟨hl, h⟩
      cases l' with
      | nil => cases hl
      | cons j l' =>
        obtain ⟨hj, hl⟩ := List.cons.inj hl
        obtain ⟨m, hm, hm'⟩ := leads_append.mp h
        exact ⟨j, m, ⟨hj, hm⟩, l', rest, ⟨hl, hm'⟩, rfl, rfl⟩

lemma readWitnesses_ok : readWitnesses l b = .ok l' rest ↔
    l'.map Input.withoutWitness = l.map Input.withoutWitness ∧
      Leads (l'.flatMap Input.witnessLayout) b rest ∧ l'.any (·.hasWitness) = true := by
  rw [readWitnesses, bind_ok]
  simp only [mapM_readWitness_ok]
  constructor
  · rintro ⟨k, m, ⟨hk, hm⟩, h⟩
    split at h
    · next hany =>
      obtain ⟨rfl, rfl⟩ := pure_ok.mp h
      exact ⟨hk, hm, hany⟩
    · exact (throw_ok.mp h).elim
  · rintro ⟨hl, hm, hany⟩
    exact ⟨l', rest, ⟨hl, hm⟩, by rw [if_pos hany, pure_ok]; exact ⟨rfl, rfl⟩⟩

lemma map_withoutWitness (h : ∀ i ∈ l, i.witness = []) : l.map Input.withoutWitness = l := by
  induction l with
  | nil => rfl
  | cons i l ih =>
    obtain ⟨hi, hl⟩ := List.forall_mem_cons.mp h
    rw [List.map_cons, ih hl, Input.withoutWitness, ← hi]

lemma readWitnesses_if_ok (h : ∀ i ∈ l, i.witness = []) :
    (if w then readWitnesses l else pure l) b = .ok l' rest ↔
      l'.map Input.withoutWitness = l ∧ l'.any (·.hasWitness) = w ∧
        Leads (if w then l'.flatMap Input.witnessLayout else []) b rest := by
  cases w with
  | true =>
    rw [if_pos rfl, if_pos rfl, readWitnesses_ok, map_withoutWitness h]
    exact and_congr_right fun _ => and_comm
  | false =>
    rw [if_neg (by decide), if_neg (by decide), pure_ok, leads_nil]
    constructor
    · rintro ⟨rfl, rfl⟩
      refine ⟨map_withoutWitness h, ?_, rfl⟩
      simpa [Input.hasWitness] using h
    · rintro ⟨rfl, hany, rfl⟩
      refine ⟨map_withoutWitness ?_, rfl⟩
      simpa [Input.hasWitness] using hany

lemma inputs_ne_nil (h : tx.hasWitness = true) : tx.inputs ≠ [] := by
  intro hnil
  rw [hasWitness, hnil] at h
  cases h

lemma counts_leads {m₁ m₂ : Bytes} (h : Leads (tx.inputs.flatMap Input.layout) m₁ m₂) :
    readInputCount b = .ok (tx.inputs.length, tx.hasWitness) m₁ ∧
        Leads [count tx.outputs.length] m₂ rest ↔
      (tx.inputs = [] → tx.outputs = []) ∧ Leads tx.inputCountLayout b m₁ ∧
        Leads [tx.outputCountLayout] m₂ rest := by
  rw [readInputCount_ok, inputCountLayout, outputCountLayout]
  cases hw : tx.hasWitness with
  | true =>
    have hne := inputs_ne_nil hw
    simp [hne]
  | false =>
    by_cases hnil : tx.inputs = []
    · -- the byte behind the zero is the first of the output count, which then is zero too
      rw [hnil] at h ⊢
      obtain rfl := leads_nil.mp h
      simp only [Bool.false_eq_true, if_false, if_true, List.length_nil, forall_const]
      constructor
      · rintro ⟨⟨hb, hhead⟩, hk⟩
        obtain ⟨hzero, hk⟩ := leads_count_zero hk hhead
        exact ⟨List.length_eq_zero_iff.mp hzero, hb, hk⟩
      · rintro ⟨hout, hb, hk⟩
        obtain rfl := leads_raw_singleton.mp hk
        refine ⟨⟨hb, by simp⟩, ?_⟩
        rw [hout]
        exact leads_encodeAll (l := [count 0]) (by simp)
    · simp [hnil]

lemma layout_leads : Leads tx.layout b rest ↔ ∃ m₀ m₁ m₂ m₃ m₄,
    b = leBytes 4 tx.version.toNat ++ m₀ ∧ Leads tx.inputCountLayout m₀ m₁ ∧
      Leads (tx.inputs.flatMap Input.layout) m₁ m₂ ∧ Leads [tx.outputCountLayout] m₂ m₃ ∧
        Leads (tx.outputs.flatMap Output.layout) m₃ m₄ ∧
          Leads tx.witnessLayout m₄ (leBytes 4 tx.lockTime.toNat ++ rest) := by
  rw [layout, ← List.singleton_append (x := tx.outputCountLayout)]
  simp only [leads_raw, leads_append, leads_nil, exists_eq_right]
  constructor
  · rintro ⟨m₀, hv, m₁, hn, m₂, hi, m₃, hk, m₄, ho, hw⟩
    exact ⟨m₀, m₁, m₂, m₃, m₄, hv, hn, hi, hk, ho, hw⟩
  · rintro ⟨m₀, m₁, m₂, m₃, m₄, hv, hn, hi, hk, ho, hw⟩
    exact ⟨m₀, hv, m₁, hn, m₂, hi, m₃, hk, m₄, ho, hw⟩

theorem read_leads : read b = .ok tx rest ↔ tx.Readable ∧ Leads tx.layout b rest := by
  simp only [read, bind_ok, pure_ok, ite_bind_ok, TransactionField.read_ok, Reader.u32_ok,
    Reader.compactSize_leads, Reader.replicate_leads_of Input.read_leads,
    Reader.replicate_leads Output.read_leads, layout_leads]
  constructor
  · rintro ⟨v, m₀, hv, ⟨n, w⟩, m₁, hn, ins, m₂, ⟨hlen, hins, hi⟩, k, m₃, hk, outs, m₄, ⟨rfl, ho⟩, l, _,
      hl, t, _, rfl, rfl, rfl⟩
    obtain ⟨rfl, hany, hw⟩ := (readWitnesses_if_ok fun i hi => (hins i hi).1).mp hl
    rw [List.length_map] at hlen
    rw [List.flatMap_map] at hi
    obtain rfl : l.length = n := hlen
    obtain rfl : l.any (·.hasWitness) = w := hany
    have hi : Leads ((⟨v, t, l, outs⟩ : Transaction).inputs.flatMap Input.layout) m₁ m₂ := hi
    obtain ⟨hout, hn, hk⟩ := (counts_leads hi).mp ⟨hn, hk⟩
    refine ⟨⟨fun i hi => ?_, hout⟩, m₀, m₁, m₂, m₃, m₄, hv, hn, hi, hk, ho, hw⟩
    exact (hins i.withoutWitness (List.mem_map_of_mem hi)).2
  · rintro ⟨⟨hspent, hout⟩, m₀, m₁, m₂, m₃, m₄, hv, hn, hi, hk, ho, hw⟩
    obtain ⟨hn, hk⟩ := (counts_leads hi).mpr ⟨hout, hn, hk⟩
    have hins : ∀ i ∈ tx.inputs.map Input.withoutWitness, i.witness = [] ∧ i.spent = none :=
      List.forall_mem_map.mpr fun i hi => ⟨rfl, hspent i hi⟩
    have hl := (readWitnesses_if_ok fun i hi => (hins i hi).1).mpr ⟨rfl, rfl, hw⟩
    refine ⟨tx.version, m₀, hv, (tx.inputs.length, tx.hasWitness), m₁, hn, _, m₂,
      ⟨List.length_map .., hins, ?_⟩, tx.outputs.length, m₃, hk, tx.outputs, m₄, ⟨rfl, ho⟩, tx.inputs, _, hl,
      tx.lockTime, rest, rfl, rfl, rfl⟩
    rw [List.flatMap_map]
    exact hi

lemma ofBytes_ok : ofBytes b = .ok tx ↔ read b = .ok tx [] := by
  rw [ofBytes, EStateM.run]
  cases read b with
  | error e m => simp
  | ok tx' m => cases m <;> simp

lemma ofBytes_ok_iff : ofBytes b = .ok tx ↔ tx.Readable ∧ Leads tx.layout b [] :=
  ofBytes_ok.trans read_leads

end Transaction

end BitcoinTx
