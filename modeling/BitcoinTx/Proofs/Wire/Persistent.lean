import BitcoinTx.Proofs.Wire.Reader
import Mathlib.Control.Monad.Basic

/-! Readers on longer and longer data: what is read stays the same, and only the complaint that the data
ends can go away. -/

namespace BitcoinTx

open Outcome

structure Persistent {ε α : Type} (AtEnd : ε → Prop) (x : EStateM ε Bytes α) : Prop where
  ok : ∀ {b a rest}, x b = .ok a rest → ∀ s, x (b ++ s) = .ok a (rest ++ s)
  error : ∀ {b e rest}, x b = .error e rest → ¬ AtEnd e → ∀ s, ∃ rest', x (b ++ s) = .error e rest'

namespace Persistent

variable {ε ε' α β : Type} {AtEnd : ε → Prop} {x y : EStateM ε Bytes α} {f : α → EStateM ε Bytes β}

protected lemma pure (a : α) : Persistent AtEnd (pure a : EStateM ε Bytes α) where
  ok h s := by
    obtain ⟨rfl, rfl⟩ := pure_ok.mp h
    rfl
  error h := by cases h

protected lemma throw (e : ε) : Persistent AtEnd (throw e : EStateM ε Bytes α) where
  ok h := (throw_ok.mp h).elim
  error h _ s := by
    cases h
    exact ⟨_, rfl⟩

protected lemma bind (hx : Persistent AtEnd x) (hf : ∀ a, Persistent AtEnd (f a)) :
    Persistent AtEnd (x >>= f) where
  ok h s := by
    obtain ⟨a, m, ha, h⟩ := bind_ok.mp h
    exact bind_ok.mpr ⟨a, m ++ s, hx.ok ha s, (hf a).ok h s⟩
  error h he s := by
    rcases bind_error.mp h with h | ⟨a, m, ha, h⟩
    · obtain ⟨m, hm⟩ := hx.error h he s
      exact ⟨m, bind_error.mpr (.inl hm)⟩
    · obtain ⟨m', hm'⟩ := (hf a).error h he s
      exact ⟨m', bind_error.mpr (.inr ⟨a, m ++ s, hx.ok ha s, hm'⟩)⟩

protected lemma map (hx : Persistent AtEnd x) (g : α → β) : Persistent AtEnd (g <$> x) := by
  rw [map_eq_pure_bind]
  exact hx.bind fun a => .pure _

protected lemma ite {p : Prop} [Decidable p] (hx : Persistent AtEnd x) (hy : Persistent AtEnd y) :
    Persistent AtEnd (if p then x else y) := by
  split
  · exact hx
  · exact hy

protected lemma replicate (hx : Persistent AtEnd x) (n : Nat) :
    Persistent AtEnd (Reader.replicate n x) := by
  induction n with
  | zero => exact .pure _
  | succ n ih => exact hx.bind fun a => ih.bind fun l => .pure _

protected lemma mapM {l : List β} {g : β → EStateM ε Bytes α} (hg : ∀ a, Persistent AtEnd (g a)) :
    Persistent AtEnd (l.mapM g) := by
  induction l with
  | nil => exact .pure _
  | cons a l ih =>
    rw [List.mapM_cons]
    exact (hg a).bind fun a => ih.bind fun l => .pure _

protected lemma peek {g : Option UInt8 → EStateM ε Bytes α} {e : ε} {rest : Bytes}
    (hsome : ∀ x, Persistent AtEnd (g (some x))) (hnone : g none [] = .error e rest)
    (he : AtEnd e) : Persistent AtEnd (get >>= fun b => g b.head?) where
  ok {b a m} h s := by
    cases b with
    | nil =>
      have h := hnone.symm.trans h
      cases h
    | cons x b => exact (hsome x).ok h s
  error {b e' m} h he' s := by
    cases b with
    | nil =>
      have h := hnone.symm.trans h
      cases h
      exact absurd he he'
    | cons x b => exact (hsome x).error h he' s

end Persistent

def DataError.AtEnd (e : DataError) : Prop := ∃ needed remaining, e = .endOfData needed remaining

namespace Reader

variable {n w : Nat}

lemma persistent_fixed : Persistent DataError.AtEnd (fixed n) where
  ok h s := by
    rw [fixed_ok] at h ⊢
    rw [h, List.append_assoc]
  error {b e rest} h he s := by
    rw [fixed] at h
    rcases bind_error.mp h with h | ⟨_, _, hb, h⟩
    · cases h
    · cases hb
      split at h
      · cases h
      · cases h
        exact absurd ⟨_, _, rfl⟩ he

lemma persistent_number : Persistent DataError.AtEnd (number w) :=
  (persistent_fixed.map Subtype.val).map leValue

lemma persistent_u8 : Persistent DataError.AtEnd u8 := persistent_number.map UInt8.ofNat

lemma persistent_u32 : Persistent DataError.AtEnd u32 := persistent_number.map UInt32.ofNat

lemma persistent_u64 : Persistent DataError.AtEnd u64 := persistent_number.map UInt64.ofNat

lemma persistent_compactSize : Persistent DataError.AtEnd compactSize :=
  persistent_u8.bind fun _ => .ite (.pure _) persistent_number

lemma persistent_varBytes : Persistent DataError.AtEnd varBytes :=
  persistent_compactSize.bind fun _ => persistent_fixed.map Subtype.val

end Reader

end BitcoinTx
