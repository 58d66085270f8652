import BitcoinTx.Proofs.Transaction.Codec
import BitcoinTx.Proofs.Wire.Persistent

/-! Transactions delimit themselves: what follows one is left alone, and a part of one is refused as
cut short. -/

namespace BitcoinTx

open Outcome

def TransactionError.AtEnd (e : TransactionError) : Prop :=
  ∃ field cause, e = .decode field cause ∧ cause.AtEnd

lemma TransactionField.persistent_read {α : Type} {x : Reader α} (field : TransactionField)
    (hx : Persistent DataError.AtEnd x) : Persistent TransactionError.AtEnd (field.read x) where
  ok h s := read_ok.mpr (hx.ok (read_ok.mp h) s)
  error {b e rest} h he s := by
    obtain ⟨cause, hcause, rfl⟩ := read_error.mp h
    obtain ⟨m, hm⟩ := hx.error hcause (fun hend => he ⟨field, cause, rfl, hend⟩) s
    exact ⟨m, read_error.mpr ⟨cause, hm, rfl⟩⟩

lemma Outpoint.persistent_read : Persistent TransactionError.AtEnd Outpoint.read :=
  (TransactionField.persistent_read _ Reader.persistent_fixed).bind fun _ =>
    (TransactionField.persistent_read _ Reader.persistent_u32).bind fun _ => .pure _

lemma Input.persistent_read : Persistent TransactionError.AtEnd Input.read :=
  Outpoint.persistent_read.bind fun _ =>
    (TransactionField.persistent_read _ Reader.persistent_varBytes).bind fun _ =>
      (TransactionField.persistent_read _ Reader.persistent_u32).bind fun _ => .pure _

lemma Input.persistent_readWitness (i : Input) :
    Persistent TransactionError.AtEnd i.readWitness :=
  (TransactionField.persistent_read _ Reader.persistent_compactSize).bind fun n =>
    (((TransactionField.persistent_read _ Reader.persistent_varBytes).replicate n).bind
      fun _ => .pure _)

lemma Output.persistent_read : Persistent TransactionError.AtEnd Output.read :=
  (TransactionField.persistent_read _ Reader.persistent_u64).bind fun _ =>
    (TransactionField.persistent_read _ Reader.persistent_varBytes).bind fun _ => .pure _

namespace Transaction

variable {b p : Bytes} {tx : Transaction}

lemma persistent_readWitnesses (l : List Input) :
    Persistent TransactionError.AtEnd (readWitnesses l) :=
  (Persistent.mapM Input.persistent_readWitness).bind fun _ => .ite (.pure _) (.throw _)

lemma persistent_readFlag (flag : UInt8) :
    Persistent TransactionError.AtEnd (readFlag (some flag)) := by
  apply Persistent.ite
  · apply ((TransactionField.persistent_read _ Reader.persistent_u8).map _).bind
    intro _
    exact (TransactionField.persistent_read _ Reader.persistent_compactSize).bind fun _ => .pure _
  · exact .ite (.pure _) (.throw _)

/-- The reader of the counts is not persistent by itself: with no byte behind a count of zero it leaves
it to the next reader to complain. -/
lemma persistent_readInputCount_bind {α : Type} {k : Nat × Bool → TransactionReader α}
    (hk : ∀ x, Persistent TransactionError.AtEnd (k x)) {e : TransactionError} {rest : Bytes}
    (hend : k (0, false) [] = .error e rest) (he : e.AtEnd) :
    Persistent TransactionError.AtEnd (readInputCount >>= k) := by
  rw [readInputCount_eq, bind_assoc]
  apply (TransactionField.persistent_read _ Reader.persistent_compactSize).bind
  intro n
  by_cases hn : n ≠ 0
  · rw [if_pos hn]
    exact (Persistent.pure _).bind hk
  · rw [if_neg hn, bind_assoc]
    exact Persistent.peek (g := fun flag => readFlag flag >>= k)
      (fun flag => (persistent_readFlag flag).bind hk) hend he

theorem persistent_read : Persistent TransactionError.AtEnd Transaction.read := by
  apply (TransactionField.persistent_read _ Reader.persistent_u32).bind
  intro version
  apply persistent_readInputCount_bind
  · intro ⟨count, witness⟩
    apply (Input.persistent_read.replicate count).bind
    intro inputs
    apply (TransactionField.persistent_read _ Reader.persistent_compactSize).bind
    intro outputCount
    apply (Output.persistent_read.replicate outputCount).bind
    intro outputs
    have hend (l : List Input) : Persistent TransactionError.AtEnd (do
        let lockTime ← TransactionField.lockTime.read Reader.u32
        return ({ version, lockTime, inputs := l, outputs } : Transaction)) :=
      (TransactionField.persistent_read _ Reader.persistent_u32).bind fun _ => .pure _
    exact .ite ((persistent_readWitnesses inputs).bind hend) ((Persistent.pure inputs).bind hend)
  · rfl
  · exact ⟨_, _, rfl, _, _, rfl⟩

lemma ofBytes_trailing {x : UInt8} {s : Bytes} (h : read b = .ok tx (x :: s)) :
    ofBytes b = .error (.trailing (x :: s).length) := by
  rw [ofBytes, EStateM.run, h]

lemma ofBytes_truncated {s : Bytes} (h : ofBytes (p ++ s) = .ok tx) (hs : s ≠ []) :
    ∃ e, ofBytes p = .error e ∧ e.AtEnd := by
  have hread := ofBytes_ok.mp h
  cases hp : read p with
  | ok tx' rest =>
    -- the whole would be read alike, with the rest of the part and `s` behind it
    have hwhole := EStateM.Result.ok.inj (hread.symm.trans (persistent_read.ok hp s))
    exact absurd (List.append_eq_nil_iff.mp hwhole.2.symm).2 hs
  | error e rest =>
    refine ⟨e, by rw [ofBytes, EStateM.run, hp], ?_⟩
    by_contra he
    obtain ⟨m, hm⟩ := persistent_read.error hp he s
    cases hread.symm.trans hm

theorem ofBytes_self_delimiting (h : ofBytes b = .ok tx) :
    (∀ s, s ≠ [] → read (b ++ s) = .ok tx s ∧ ofBytes (b ++ s) = .error (.trailing s.length)) ∧
      ∀ p, p <+: b → p ≠ b →
        ∃ field needed remaining, ofBytes p = .error (.decode field (.endOfData needed remaining)) := by
  constructor
  · intro s hs
    have hread : read (b ++ s) = .ok tx s := persistent_read.ok (ofBytes_ok.mp h) s
    cases s with
    | nil => exact absurd rfl hs
    | cons x s => exact ⟨hread, ofBytes_trailing hread⟩
  · rintro p ⟨s, rfl⟩ hp
    have hs : s ≠ [] := by
      rintro rfl
      exact hp (List.append_nil p).symm
    obtain ⟨_, he, field, _, rfl, needed, remaining, rfl⟩ := ofBytes_truncated h hs
    exact ⟨field, needed, remaining, he⟩

/-- Two inputs, one of them with a witness, with data behind them, and cut inside the witness; and a transaction
without inputs, cut behind their count. -/
theorem ofBytes_self_delimiting_mixedSpend :
    (ofBytes mixedSpend.encode = .ok mixedSpend ∧
      ofBytes (mixedSpend.encode ++ [witnessFlag, 0]) = .error (.trailing 2) ∧
        ∃ field needed remaining, ofBytes (mixedSpend.encode.take 106) =
          .error (.decode field (.endOfData needed remaining))) ∧
    ofBytes empty.encode = .ok empty ∧
      ofBytes (empty.encode ++ [witnessFlag]) = .error (.trailing 1) ∧
        ∃ field needed remaining,
          ofBytes (empty.encode.take 5) = .error (.decode field (.endOfData needed remaining)) := by
  have hmixed : ofBytes mixedSpend.encode = .ok mixedSpend :=
    ofBytes_of_counts ⟨by decide, by decide⟩ fun _ => addressable_mixedSpend.lt
  have hempty : ofBytes empty.encode = .ok empty := by decide
  obtain ⟨hbehind, hcut⟩ := ofBytes_self_delimiting hmixed
  obtain ⟨hbehind', hcut'⟩ := ofBytes_self_delimiting hempty
  refine ⟨⟨hmixed, (hbehind [witnessFlag, 0] (by decide)).2, hcut _ (List.take_prefix ..) ?_⟩,
    hempty, (hbehind' [witnessFlag] (by decide)).2, hcut' _ (List.take_prefix ..) (by decide)⟩
  exact fun h => absurd (congrArg List.length h) (by decide)

end Transaction

end BitcoinTx
