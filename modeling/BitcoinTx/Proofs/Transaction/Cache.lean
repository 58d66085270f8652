import BitcoinTx.Proofs.Transaction.Signing
import BitcoinTx.Transaction.Cached

/-! Remembering the shared hashes changes no result. A transaction that remembers them does what the
bare one does, and what it remembers stays current. -/

namespace BitcoinTx

open Outcome

abbrev TransactionM := EStateM TransactionError Transaction

namespace TransactionM

variable {α β : Type}

def reading (p : Transaction → Except TransactionError α) : TransactionM α := fun tx =>
  match p tx with
  | .ok a => .ok a tx
  | .error e => .error e tx

def updating (f : Transaction → Except TransactionError Transaction) : TransactionM Unit := fun tx =>
  match f tx with
  | .ok tx' => .ok () tx'
  | .error e => .error e tx

lemma reading_bind (p : Transaction → Except TransactionError α)
    (q : α → Transaction → Except TransactionError β) :
    (reading p >>= fun a => reading (q a)) = reading fun tx => p tx >>= fun a => q a tx := by
  funext tx
  change EStateM.bind (reading p) _ tx = _
  simp only [EStateM.bind, reading]
  cases p tx <;> rfl

lemma reading_bind_updating (p : Transaction → Except TransactionError α)
    (f : α → Transaction → Except TransactionError Transaction) :
    (reading p >>= fun a => updating (f a)) = updating fun tx => p tx >>= fun a => f a tx := by
  funext tx
  change EStateM.bind (reading p) _ tx = _
  simp only [EStateM.bind, reading, updating]
  cases p tx <;> rfl

lemma map_reading (g : α → β) (p : Transaction → Except TransactionError α) :
    g <$> reading p = reading fun tx => (p tx).map g := by
  funext tx
  change EStateM.map g (reading p) tx = _
  simp only [EStateM.map, reading]
  cases p tx <;> rfl

lemma forM_reading (l : List β) (p : β → Transaction → Except TransactionError Unit) :
    (l.forM fun b => reading (p b)) = reading fun tx => l.forM (p · tx) := by
  induction l with
  | nil => rfl
  | cons b l ih =>
    simp only [List.forM_eq_forM, List.forM_cons] at ih ⊢
    rw [ih, reading_bind]

end TransactionM

open TransactionM

lemma Transaction.spent_bind_input {α : Type} {tx : Transaction} {index : Nat}
    {k : Input → SpentOutput → Except TransactionError α} :
    (tx.spent index >>= fun _ => tx.input index >>= fun i => tx.spent index >>= k i) =
      tx.input index >>= fun i => tx.spent index >>= k i := by
  simp only [spent]
  cases tx.input index with
  | error e => rfl
  | ok i =>
    rcases i with ⟨outpoint, sequence, unlocking, witness, spent⟩
    cases spent <;> rfl

variable [Crypto]

def Transaction.SigningMethod.pick {α : Type} (m : SigningMethod) (x y : α) : α :=
  match m with
  | legacy => x
  | witness => y

namespace CachedTransaction

def Coherent (c : CachedTransaction) : Prop :=
  c.midstate? = none ∨ c.midstate? = some c.tx.midstate

lemma Coherent.getD {c : CachedTransaction} (h : c.Coherent) :
    c.midstate?.getD c.tx.midstate = c.tx.midstate := by
  rcases h with h | h <;> rw [h] <;> rfl

section

variable {α β : Type}

/-- On current hashes, both computations end alike, and the hashes are current again, whether
they end in success or in failure. -/
def Refines (x : CachedM α) (y : TransactionM α) : Prop :=
  ∀ c : CachedTransaction, c.Coherent → ∃ d : CachedTransaction, d.Coherent ∧
    ((∃ a, x c = .ok a d ∧ y c.tx = .ok a d.tx) ∨ ∃ e, x c = .error e d ∧ y c.tx = .error e d.tx)

variable {x : CachedM α} {y : TransactionM α} {p : Transaction → Except TransactionError α}
  {f : Transaction → Except TransactionError Transaction}

lemma Refines.bind {k : α → CachedM β} {k' : α → TransactionM β} (hx : Refines x y)
    (hk : ∀ a, Refines (k a) (k' a)) : Refines (x >>= k) (y >>= k') := by
  intro c hc
  obtain ⟨d, hd, ⟨a, hxa, hya⟩ | ⟨e, hxe, hye⟩⟩ := hx c hc
  · obtain ⟨d', hd', ⟨b, hkb, hkb'⟩ | ⟨e, hke, hke'⟩⟩ := hk a d hd
    · exact ⟨d', hd', .inl ⟨b, bind_ok.mpr ⟨a, d, hxa, hkb⟩, bind_ok.mpr ⟨a, d.tx, hya, hkb'⟩⟩⟩
    · refine ⟨d', hd', .inr ⟨e, bind_error.mpr (.inr ⟨a, d, hxa, hke⟩), ?_⟩⟩
      exact bind_error.mpr (.inr ⟨a, d.tx, hya, hke'⟩)
  · exact ⟨d, hd, .inr ⟨e, bind_error.mpr (.inl hxe), bind_error.mpr (.inl hye)⟩⟩

lemma Refines.pure (a : α) : Refines (Pure.pure a) (Pure.pure a) := fun c hc =>
  ⟨c, hc, .inl ⟨a, rfl, rfl⟩⟩

lemma Refines.map (hx : Refines x y) (g : α → β) : Refines (g <$> x) (g <$> y) := by
  rw [map_eq_pure_bind, map_eq_pure_bind]
  exact hx.bind fun a => .pure (g a)

lemma Refines.forM {l : List β} {k : β → CachedM Unit} {k' : β → TransactionM Unit}
    (hk : ∀ b, Refines (k b) (k' b)) : Refines (l.forM k) (l.forM k') := by
  induction l with
  | nil => exact .pure ()
  | cons b l ih =>
    rw [List.forM_eq_forM, List.forM_eq_forM, List.forM_cons, List.forM_cons]
    exact (hk b).bind fun _ => ih

lemma refines_reading : Refines (get >>= fun c => ofExcept (p c.tx)) (reading p) := by
  intro c hc
  refine ⟨c, hc, ?_⟩
  change (∃ a, (ofExcept (p c.tx) : CachedM α) c = _ ∧ _) ∨
    ∃ e, (ofExcept (p c.tx) : CachedM α) c = _ ∧ _
  cases hp : p c.tx with
  | ok a => exact .inl ⟨a, rfl, by rw [reading, hp]⟩
  | error e => exact .inr ⟨e, rfl, by rw [reading, hp]⟩

lemma refines_reading_bind {k : α → CachedM β} {k' : α → TransactionM β}
    (hk : ∀ a, Refines (k a) (k' a)) :
    Refines (get >>= fun c => ofExcept (p c.tx) >>= k) (reading p >>= k') := by
  have h := (refines_reading (p := p)).bind hk
  rwa [bind_assoc] at h

lemma refines_keep (h : ∀ {tx tx'}, f tx = .ok tx' → tx'.midstate = tx.midstate) :
    Refines (keep f) (updating f) := by
  intro c hc
  cases hf : f c.tx with
  | ok tx =>
    -- what is remembered stays, and the hashes it should be stay with it
    refine ⟨{ c with tx }, ?_, .inl ⟨(), ?_, by rw [updating, hf]⟩⟩
    · rcases hc with hc | hc
      · exact .inl hc
      · exact .inr (hc.trans (congrArg some (h hf).symm))
    · rw [keep, get_bind_ok, ofExcept_bind_ok]
      exact ⟨tx, hf, rfl⟩
  | error e =>
    refine ⟨c, hc, .inr ⟨e, ?_, by rw [updating, hf]⟩⟩
    change ((ofExcept (f c.tx) : CachedM Transaction) >>= _) c = _
    rw [hf]
    rfl

lemma refines_change (f : Transaction → Transaction) :
    Refines (change f) (updating fun tx => .ok (f tx)) := fun c _ =>
  ⟨{ tx := f c.tx }, .inl rfl, .inl ⟨(), rfl, rfl⟩⟩

lemma refines_midstate : Refines midstate (reading fun tx => .ok tx.midstate) := by
  intro c hc
  refine ⟨{ c with midstate? := some c.tx.midstate }, .inr rfl, .inl ⟨c.tx.midstate, ?_, rfl⟩⟩
  change EStateM.Result.ok (c.midstate?.getD c.tx.midstate)
    { c with midstate? := some (c.midstate?.getD c.tx.midstate) } = _
  rw [hc.getD]

lemma refines_current (q : Midstate → Transaction → Except TransactionError α) :
    Refines (get >>= fun c => ofExcept (q (c.midstate?.getD c.tx.midstate) c.tx))
      (reading fun tx => q tx.midstate tx) := by
  intro c hc
  have hx : (get >>= fun c => ofExcept (q (c.midstate?.getD c.tx.midstate) c.tx) : CachedM α) c =
      (get >>= fun c => ofExcept (q c.tx.midstate c.tx) : CachedM α) c := by
    change (ofExcept (q (c.midstate?.getD c.tx.midstate) c.tx) : CachedM α) c = _
    rw [hc.getD]
    rfl
  rw [hx]
  exact refines_reading c hc

end

variable (index : Nat)

lemma refines_modifyInput (f : Input → Input) : Refines (discard (modifyInput index f))
    (updating fun tx => .ok (tx.modifyInput index f)) := fun c _ =>
  ⟨{ tx := c.tx.modifyInput index f }, .inl rfl, .inl ⟨(), rfl, rfl⟩⟩

lemma refines_modifyOutput (f : Output → Output) : Refines (discard (modifyOutput index f))
    (updating fun tx => .ok (tx.modifyOutput index f)) := fun c _ =>
  ⟨{ tx := c.tx.modifyOutput index f }, .inl rfl, .inl ⟨(), rfl, rfl⟩⟩

lemma refines_setVersion (n : UInt32) :
    Refines (setVersion n) (updating fun tx => .ok { tx with version := n }) :=
  refines_keep fun h => Except.ok.inj h ▸ rfl

lemma refines_setLockTime (n : UInt32) :
    Refines (setLockTime n) (updating fun tx => .ok { tx with lockTime := n }) :=
  refines_keep fun h => Except.ok.inj h ▸ rfl

lemma refines_hydrate (coin : Coin) (redeem : Option Script) :
    Refines (hydrate index coin redeem) (updating (·.hydrate index coin redeem)) := by
  apply refines_keep
  intro tx tx' h
  rw [Transaction.hydrate] at h
  obtain ⟨i, -, h⟩ := except_bind_ok.mp h
  obtain ⟨-, h⟩ := except_unless_bind_ok.mp h
  obtain ⟨s, -, h⟩ := except_bind_ok.mp h
  rw [← except_pure_ok.mp h]
  exact Transaction.midstate_modifyInput (fun _ => rfl) fun _ => rfl

lemma refines_signLegacy (s : Signer) :
    Refines (signLegacy index s) (updating (·.signLegacy index s)) := by
  apply refines_keep
  intro tx tx' h
  obtain ⟨d, l, s, u, -, -, -, -, rfl⟩ := Transaction.signLegacy_ok.mp h
  exact Transaction.midstate_modifyInput (fun _ => rfl) fun _ => rfl

variable (t : HashType)

lemma refines_witnessPreimage :
    Refines (witnessPreimage index t) (reading (·.witnessPreimage index t)) := by
  have h := refines_reading_bind (p := (·.spent index)) fun _ => refines_midstate.bind fun mid =>
    refines_reading (p := fun tx => tx.witnessPreimageWith mid index t)
  have hy : (fun tx : Transaction => tx.spent index >>= fun _ => .ok tx.midstate >>= fun mid =>
      tx.witnessPreimageWith mid index t) = (·.witnessPreimage index t) := by
    funext tx
    exact Transaction.spent_bind_input
  simp only [reading_bind, hy] at h
  simpa only [witnessPreimage, discard_bind] using h

lemma refines_witnessDigest :
    Refines (witnessDigest index t) (reading (·.witnessDigest index t)) := by
  have h := (refines_witnessPreimage index t).map sha256d
  rwa [map_reading] at h

lemma refines_signWitness (s : Signer) :
    Refines (signWitness index s) (updating (·.signWitness index s)) := by
  have h := (refines_witnessDigest index s.hashType).bind fun d =>
    refines_keep (f := fun tx => s.signatures d >>= tx.unlockWitness index) ?_
  · rwa [reading_bind_updating] at h
  · intro tx tx' h
    simp only [Transaction.unlockWitness, except_bind_ok, mapError_ok, except_pure_ok] at h
    obtain ⟨l, -, s, -, w, -, u, -, rfl⟩ := h
    exact Transaction.midstate_modifyInput (fun _ => rfl) fun _ => rfl

lemma refines_sign (s : Signer) : Refines (sign index s) (updating (·.sign index s)) := by
  have hmethod (m : Transaction.SigningMethod) :
      Refines (m.pick (signLegacy index s) (signWitness index s))
        (updating fun tx => m.pick (tx.signLegacy index s) (tx.signWitness index s)) := by
    cases m with
    | legacy => exact refines_signLegacy index s
    | witness => exact refines_signWitness index s
  have h := refines_reading_bind (p := (·.signingMethod index s)) hmethod
  rw [reading_bind_updating] at h
  exact h

lemma refines_verifyInput : Refines (verifyInput index) (reading (·.verifyInput index)) := by
  let x : CachedM Unit := get >>= fun c =>
    ofExcept (c.tx.verifyInputWith (c.midstate?.getD c.tx.midstate) index)
  have hx : Refines x (reading (·.verifyInput index)) :=
    refines_current fun mid tx => tx.verifyInputWith mid index
  have hcheck (s : SpentOutput) :
      Refines (if s.version = .witnessV0 then discard midstate >>= fun _ => x else x)
        (reading (·.verifyInput index)) := by
    split
    · rw [discard_bind]
      exact refines_midstate.bind fun _ => hx
    · exact hx
  have h := refines_reading_bind (p := (·.spent index)) hcheck
  have hy : (fun tx : Transaction => tx.spent index >>= fun _ => tx.verifyInput index) =
      (·.verifyInput index) := by
    funext tx
    exact Transaction.spent_bind_input
  rwa [reading_bind, hy] at h

lemma refines_verify : Refines verify (reading (·.verify)) := by
  have h := refines_reading_bind (p := fun tx => .ok tx.inputs.length) fun n =>
    Refines.forM (l := List.range n) refines_verifyInput
  simp only [forM_reading, reading_bind] at h
  exact h

end CachedTransaction

end BitcoinTx
