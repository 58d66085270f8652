import BitcoinTx.Eval.Machine
import Mathlib.Data.List.Forall2

/-! When sequences of computations succeed, and with what. -/

namespace BitcoinTx.Outcome

variable {ε ε' σ α β : Type}

lemma bind_ok {x : EStateM ε σ α} {f : α → EStateM ε σ β} {s t : σ} {b : β} :
    (x >>= f) s = .ok b t ↔ ∃ a u, x s = .ok a u ∧ f a u = .ok b t := by
  change EStateM.bind x f s = .ok b t ↔ _
  rw [EStateM.bind]
  constructor
  · intro h
    cases hx : x s with
    | ok a u => exact ⟨a, u, rfl, by simpa only [hx] using h⟩
    | error e u => simp [hx] at h
  · rintro ⟨a, u, hx, hf⟩
    simpa only [hx] using hf

lemma bind_error {x : EStateM ε σ α} {f : α → EStateM ε σ β} {s t : σ} {e : ε} :
    (x >>= f) s = .error e t ↔
      x s = .error e t ∨ ∃ a u, x s = .ok a u ∧ f a u = .error e t := by
  change EStateM.bind x f s = .error e t ↔ _
  rw [EStateM.bind]
  cases hx : x s with
  | ok a u => simp
  | error e' u => simp

lemma seq_ok {x : EStateM ε σ Unit} {f : Unit → EStateM ε σ β} {s t : σ} {b : β} :
    (x >>= f) s = .ok b t ↔ ∃ u, x s = .ok () u ∧ f () u = .ok b t :=
  bind_ok.trans ⟨fun ⟨_, u, h⟩ => ⟨u, h⟩, fun ⟨u, h⟩ => ⟨(), u, h⟩⟩

lemma pure_ok {a b : α} {s t : σ} : (pure a : EStateM ε σ α) s = .ok b t ↔ a = b ∧ s = t := by
  change EStateM.Result.ok a s = .ok b t ↔ _
  simp

lemma throw_ok {e : ε} {a : α} {s t : σ} : (throw e : EStateM ε σ α) s = .ok a t ↔ False := by
  change EStateM.Result.error e s = .ok a t ↔ _
  simp

lemma unless_ok {p : Prop} [Decidable p] {e : ε} {x : EStateM ε σ α} {a : α} {s t : σ} :
    (if p then throw e else x) s = .ok a t ↔ ¬ p ∧ x s = .ok a t := by
  by_cases hp : p <;> simp [hp, throw_ok]

lemma unless_bind_ok {p : Prop} [Decidable p] {e : ε} {f : α → EStateM ε σ β} {x : EStateM ε σ β}
    {b : β} {s t : σ} : (if p then throw e >>= f else x) s = .ok b t ↔ ¬ p ∧ x s = .ok b t := by
  by_cases hp : p <;> simp [hp, bind_ok, throw_ok]

lemma ite_bind_ok {p : Prop} [Decidable p] {x y : EStateM ε σ α} {f : α → EStateM ε σ β} {s t : σ}
    {b : β} : (if p then x >>= f else y >>= f) s = .ok b t ↔
      ∃ a u, (if p then x else y) s = .ok a u ∧ f a u = .ok b t := by
  by_cases hp : p <;> simp [hp, bind_ok]

lemma get_bind_ok {f : σ → EStateM ε σ β} {b : β} {s t : σ} :
    (get >>= f) s = .ok b t ↔ f s s = .ok b t := Iff.rfl

lemma modify_ok {f : σ → σ} {s t : σ} {a : PUnit} :
    (modify f : EStateM ε σ PUnit) s = .ok a t ↔ f s = t := by
  change EStateM.Result.ok PUnit.unit (f s) = .ok a t ↔ _
  simp

lemma modify_bind_ok {f : σ → σ} {g : PUnit → EStateM ε σ β} {b : β} {s t : σ} :
    (modify f >>= g) s = .ok b t ↔ g () (f s) = .ok b t := Iff.rfl

lemma ofExcept_ok {x : Except ε α} {a : α} {s t : σ} :
    (ofExcept x : EStateM ε σ α) s = .ok a t ↔ x = .ok a ∧ s = t := by
  cases x with
  | ok b => simpa [ofExcept] using pure_ok
  | error e => simpa [ofExcept] using throw_ok

lemma ofExcept_bind_ok {x : Except ε α} {f : α → EStateM ε σ β} {s t : σ} {b : β} :
    ((ofExcept x : EStateM ε σ α) >>= f) s = .ok b t ↔ ∃ a, x = .ok a ∧ f a s = .ok b t := by
  rw [bind_ok]
  simp [ofExcept_ok, and_assoc]

lemma discard_ok {x : EStateM ε σ α} {s t : σ} {a : PUnit} :
    (discard x) s = .ok a t ↔ ∃ b, x s = .ok b t := by
  change EStateM.map (Function.const α PUnit.unit) x s = .ok a t ↔ _
  rw [EStateM.map]
  cases x s <;> simp

lemma discard_bind {x : EStateM ε σ α} {f : PUnit → EStateM ε σ β} :
    discard x >>= f = x >>= fun _ => f PUnit.unit :=
  bind_map_left (Function.const α PUnit.unit) x f

lemma map_ok {x : EStateM ε σ α} {f : α → β} {s t : σ} {b : β} :
    (f <$> x) s = .ok b t ↔ ∃ a, x s = .ok a t ∧ f a = b := by
  change EStateM.map f x s = .ok b t ↔ _
  rw [EStateM.map]
  cases x s with
  | ok c u =>
    simp only [EStateM.Result.ok.injEq]
    constructor
    · rintro ⟨rfl, rfl⟩
      exact ⟨c, ⟨rfl, rfl⟩, rfl⟩
    · rintro ⟨_, ⟨rfl, rfl⟩, rfl⟩
      exact ⟨rfl, rfl⟩
  | error e u => simp

lemma onStack_ok {x : StackM α} {m n : Machine} {a : α} :
    onStack x m = .ok a n ↔ ∃ s, x m.stack = .ok a s ∧ { m with stack := s } = n := by
  rw [onStack]
  cases x m.stack <;> simp [and_assoc]

lemma except_bind_ok {x : Except ε α} {f : α → Except ε β} {b : β} :
    x >>= f = .ok b ↔ ∃ a, x = .ok a ∧ f a = .ok b := by
  cases x with
  | ok a =>
    change f a = .ok b ↔ _
    simp
  | error e =>
    change Except.error e = .ok b ↔ _
    simp

lemma except_error_bind {e : ε} {f : α → Except ε β} : Except.error e >>= f = .error e := rfl

lemma except_ok_bind {a : α} {f : α → Except ε β} : Except.ok a >>= f = f a := rfl

lemma except_pure_ok {a b : α} : (pure a : Except ε α) = .ok b ↔ a = b := by
  change Except.ok a = .ok b ↔ _
  simp

lemma except_isOk {x : Except ε α} : x.isOk = true ↔ ∃ a, x = .ok a := by
  cases x <;> simp [Except.isOk, Except.toBool]

lemma except_unless_bind_ok {p : Prop} [Decidable p] {e : ε} {f : α → Except ε β}
    {x : Except ε β} {b : β} :
    (if p then throw e >>= f else x) = .ok b ↔ ¬ p ∧ x = .ok b := by
  by_cases hp : p
  · rw [if_pos hp]
    exact ⟨fun h => (by cases h), fun h => absurd hp h.1⟩
  · simp [hp]

lemma except_map_ok {x : Except ε α} {f : α → β} {b : β} :
    x.map f = .ok b ↔ ∃ a, x = .ok a ∧ f a = b := by
  cases x <;> simp [Except.map]

lemma mapM_ok {f : α → Except ε β} {l : List α} {l' : List β} :
    l.mapM f = .ok l' ↔ List.Forall₂ (f · = .ok ·) l l' := by
  induction l generalizing l' with
  | nil =>
    rw [List.forall₂_nil_left_iff, List.mapM_nil, except_pure_ok]
    exact eq_comm
  | cons a l ih =>
    rw [List.mapM_cons, except_bind_ok, List.forall₂_cons_left_iff]
    simp only [except_bind_ok, except_pure_ok, ih]
    constructor
    · rintro ⟨b, hb, k, hk, rfl⟩
      exact ⟨b, k, hb, hk, rfl⟩
    · rintro ⟨b, k, hb, hk, rfl⟩
      exact ⟨b, hb, k, hk, rfl⟩

lemma option_mapM_ok {f : α → Except ε β} {x : Option α} {y : Option β} :
    x.mapM f = .ok y ↔ Option.Rel (fun a b => f a = .ok b) x y := by
  cases x with
  | none =>
    change Except.ok none = Except.ok y ↔ _
    constructor
    · rintro h
      cases h
      exact .none
    · rintro ⟨⟩
      rfl
  | some a =>
    change (f a).map some = .ok y ↔ _
    rw [except_map_ok]
    constructor
    · rintro ⟨b, hb, rfl⟩
      exact .some hb
    · rintro ⟨hb⟩
      exact ⟨_, hb, rfl⟩

lemma forM_ok {f : α → Except ε Unit} {l : List α} :
    l.forM f = .ok () ↔ ∀ a ∈ l, f a = .ok () := by
  induction l with
  | nil => exact ⟨fun _ a ha => (by cases ha), fun _ => rfl⟩
  | cons a l ih =>
    rw [List.forM_eq_forM, List.forM_cons, except_bind_ok, List.forall_mem_cons, ← ih]
    exact ⟨fun ⟨_, h⟩ => h, fun h => ⟨(), h⟩⟩

lemma mapError_ok {x : Except ε α} {f : ε → ε'} {a : α} : x.mapError f = .ok a ↔ x = .ok a := by
  cases x <;> simp [Except.mapError]

lemma ofResult_bind_ok {x : Except EvalError α} {f : α → EvalM β} {m m' : Machine} {b : β} :
    (ofResult x >>= f) m = .ok b m' ↔ ∃ a, x = .ok a ∧ f a m = .ok b m' := by
  rw [ofExcept_bind_ok]
  simp only [mapError_ok]

end BitcoinTx.Outcome

namespace BitcoinTx.Stack

lemma pop_ok {s t : Stack} {x : Bytes} : pop s = .ok x t ↔ s = x :: t := by
  cases s with
  | nil =>
    change EStateM.Result.error _ _ = .ok x t ↔ _
    simp
  | cons y s =>
    change EStateM.Result.ok y s = .ok x t ↔ _
    simp

end BitcoinTx.Stack

namespace BitcoinTx.Outcome

lemma pop_bind_ok {α : Type} {f : Bytes → EvalM α} {b : α} {m m' : Machine} :
    (onStack Stack.pop >>= f) m = .ok b m' ↔
      ∃ x s, m.stack = x :: s ∧ f x { m with stack := s } = .ok b m' := by
  rw [bind_ok]
  simp only [onStack_ok, Stack.pop_ok]
  constructor
  · rintro ⟨x, _, ⟨s, hs, rfl⟩, h⟩
    exact ⟨x, s, hs, h⟩
  · rintro ⟨x, s, hs, h⟩
    exact ⟨x, _, ⟨s, hs, rfl⟩, h⟩

end BitcoinTx.Outcome
