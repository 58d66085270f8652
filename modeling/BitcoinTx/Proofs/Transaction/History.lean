import BitcoinTx.Proofs.Transaction.Cache
import BitcoinTx.Proofs.Transaction.Verification
import BitcoinTx.Transaction.Decode

/-! Whatever is done to a transaction, the hashes that it remembers stay those of its inputs and
outputs, and its history is the one of a transaction that remembers nothing. -/

namespace BitcoinTx

open TransactionM

section

variable {σ α : Type}

def after (x : EStateM TransactionError σ α) (s : σ) : σ :=
  match x s with
  | .ok _ t | .error _ t => t

def answer (x : EStateM TransactionError σ α) (s : σ) : Except TransactionError α :=
  match x s with
  | .ok a _ => .ok a
  | .error e _ => .error e

lemma answer_reading (p : Transaction → Except TransactionError α) (tx : Transaction) :
    answer (reading p) tx = p tx := by
  rw [answer, reading]
  cases p tx <;> rfl

end

/-- What a program can do with a transaction through its methods. An input or an output is changed in
any way; what other methods answer is left out. -/
inductive Call where
  | addInput (i : Input)
  | addOutput (o : Output)
  | modifyInput (index : Nat) (f : Input → Input)
  | modifyOutput (index : Nat) (f : Output → Output)
  | setVersion (n : UInt32)
  | setLockTime (n : UInt32)
  | hydrate (index : Nat) (coin : Coin) (redeem : Option Script)
  | sign (index : Nat) (s : Signer)
  | signLegacy (index : Nat) (s : Signer)
  | signWitness (index : Nat) (s : Signer)
  | midstate
  | witnessPreimage (index : Nat) (t : HashType)
  | witnessDigest (index : Nat) (t : HashType)
  | verifyInput (index : Nat)
  | verify

namespace Call

open CachedTransaction

variable [Crypto]

def run : Call → CachedM Unit
  | addInput i => CachedTransaction.addInput i
  | addOutput o => CachedTransaction.addOutput o
  | modifyInput index f => discard (CachedTransaction.modifyInput index f)
  | modifyOutput index f => discard (CachedTransaction.modifyOutput index f)
  | setVersion n => CachedTransaction.setVersion n
  | setLockTime n => CachedTransaction.setLockTime n
  | hydrate index coin redeem => CachedTransaction.hydrate index coin redeem
  | sign index s => CachedTransaction.sign index s
  | signLegacy index s => CachedTransaction.signLegacy index s
  | signWitness index s => CachedTransaction.signWitness index s
  | midstate => discard CachedTransaction.midstate
  | witnessPreimage index t => discard (CachedTransaction.witnessPreimage index t)
  | witnessDigest index t => discard (CachedTransaction.witnessDigest index t)
  | verifyInput index => CachedTransaction.verifyInput index
  | verify => CachedTransaction.verify

def runBare : Call → TransactionM Unit
  | addInput i => updating fun tx => .ok (tx.addInput i)
  | addOutput o => updating fun tx => .ok (tx.addOutput o)
  | modifyInput index f => updating fun tx => .ok (tx.modifyInput index f)
  | modifyOutput index f => updating fun tx => .ok (tx.modifyOutput index f)
  | setVersion n => updating fun tx => .ok { tx with version := n }
  | setLockTime n => updating fun tx => .ok { tx with lockTime := n }
  | hydrate index coin redeem => updating (·.hydrate index coin redeem)
  | sign index s => updating (·.sign index s)
  | signLegacy index s => updating (·.signLegacy index s)
  | signWitness index s => updating (·.signWitness index s)
  | midstate => discard (reading fun tx => .ok tx.midstate)
  | witnessPreimage index t => discard (reading (·.witnessPreimage index t))
  | witnessDigest index t => discard (reading (·.witnessDigest index t))
  | verifyInput index => reading (·.verifyInput index)
  | verify => reading (·.verify)

lemma refines (m : Call) : Refines m.run m.runBare := by
  cases m with
  | addInput i => exact refines_change (·.addInput i)
  | addOutput o => exact refines_change (·.addOutput o)
  | modifyInput index f => exact refines_modifyInput index f
  | modifyOutput index f => exact refines_modifyOutput index f
  | setVersion n => exact refines_setVersion n
  | setLockTime n => exact refines_setLockTime n
  | hydrate index coin redeem => exact refines_hydrate index coin redeem
  | sign index s => exact refines_sign index s
  | signLegacy index s => exact refines_signLegacy index s
  | signWitness index s => exact refines_signWitness index s
  | midstate => exact refines_midstate.map _
  | witnessPreimage index t => exact (refines_witnessPreimage index t).map _
  | witnessDigest index t => exact (refines_witnessDigest index t).map _
  | verifyInput index => exact refines_verifyInput index
  | verify => exact refines_verify

end Call

namespace CachedTransaction

section

variable [Crypto] {α : Type} {x : CachedM α} {y : TransactionM α} {c : CachedTransaction}

lemma Refines.coherent_after (h : Refines x y) (hc : c.Coherent) : (after x c).Coherent := by
  obtain ⟨d, hd, ⟨a, hx, -⟩ | ⟨e, hx, -⟩⟩ := h c hc
  · rwa [after, hx]
  · rwa [after, hx]

lemma Refines.tx_after (h : Refines x y) (hc : c.Coherent) : (after x c).tx = after y c.tx := by
  obtain ⟨d, -, ⟨a, hx, hy⟩ | ⟨e, hx, hy⟩⟩ := h c hc
  · rw [after, after, hx, hy]
  · rw [after, after, hx, hy]

lemma Refines.answer_eq (h : Refines x y) (hc : c.Coherent) : answer x c = answer y c.tx := by
  obtain ⟨d, -, ⟨a, hx, hy⟩ | ⟨e, hx, hy⟩⟩ := h c hc
  · rw [answer, answer, hx, hy]
  · rw [answer, answer, hx, hy]

end

section

variable [Crypto] {c : CachedTransaction}

def replay (l : List Call) (c : CachedTransaction) : CachedTransaction :=
  l.foldl (fun c m => after m.run c) c

theorem tx_replay {l : List Call} (hc : c.Coherent) :
    (replay l c).tx = l.foldl (fun tx m => after m.runBare tx) c.tx := by
  induction l generalizing c with
  | nil => rfl
  | cons m l ih =>
    have htx := m.refines.tx_after hc
    rw [List.foldl_cons, ← htx]
    exact ih (m.refines.coherent_after hc)

/-- The transactions that programs can hold. An evaluation that asks for no digest remembers
nothing new, and so leaves one that is reached already. -/
inductive Reached : CachedTransaction → Prop where
  | empty : Reached .empty
  | ofBytes {b : Bytes} {tx : Transaction} (h : Transaction.ofBytes b = .ok tx) : Reached { tx }
  | call {c : CachedTransaction} (m : Call) (h : Reached c) : Reached (after m.run c)
  | clone {c : CachedTransaction} (h : Reached c) : Reached c.clone

lemma Reached.replay (h : Reached c) (l : List Call) : Reached (replay l c) := by
  induction l generalizing c with
  | nil => exact h
  | cons m l ih => exact ih (h.call m)

lemma Reached.coherent (h : Reached c) : c.Coherent := by
  induction h with
  | empty => exact .inl rfl
  | ofBytes => exact .inl rfl
  | call m _ ih => exact m.refines.coherent_after ih
  | clone _ ih => exact ih

theorem Reached.witnessPreimage_fresh (h : Reached c) :
    (c.midstate? = none ∨ c.midstate? = some c.tx.midstate) ∧
      ∀ index t, answer (witnessPreimage index t) c = c.tx.witnessPreimage index t := by
  have hc := h.coherent
  refine ⟨hc, fun index t => ?_⟩
  rw [(refines_witnessPreimage index t).answer_eq hc, answer_reading]

end

/-- The hashes are computed, dropped with the sequence number that they cover, and computed again; a
signature that fails, and the lock time, leave them. -/
def replayedSpend : CachedTransaction :=
  @replay Crypto.bitcoin
    [.addInput generatorInput, .addOutput ⟨900, ⟨[Opcode.one]⟩⟩, .witnessDigest 0 ⟨1⟩,
      .modifyInput 0 ({ · with sequence := 5 }), .midstate, .sign 1 { keys := [] }, .setLockTime 9]
    .empty

theorem witnessPreimage_fresh_replayedSpend :
    replayedSpend.midstate?.isSome ∧
      replayedSpend.midstate? = some (@Transaction.midstate Crypto.bitcoin replayedSpend.tx) ∧
      answer (@witnessPreimage Crypto.bitcoin 0 ⟨1⟩) replayedSpend =
        @Transaction.witnessPreimage Crypto.bitcoin replayedSpend.tx 0 ⟨1⟩ := by
  have hsome : replayedSpend.midstate?.isSome := rfl
  have h : @Reached Crypto.bitcoin replayedSpend :=
    @Reached.replay Crypto.bitcoin _ (@Reached.empty Crypto.bitcoin) _
  obtain ⟨hnone | hcurrent, hpreimage⟩ := @Reached.witnessPreimage_fresh Crypto.bitcoin _ h
  · rw [hnone] at hsome
    cases hsome
  · exact ⟨hsome, hcurrent, hpreimage 0 ⟨1⟩⟩

end CachedTransaction

end BitcoinTx
