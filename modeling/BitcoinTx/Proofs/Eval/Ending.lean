import BitcoinTx.Proofs.Eval.Outcome

/-! How computations end, whether they succeed or fail. -/

namespace BitcoinTx

open Outcome

namespace EvalM

variable {α β : Type}

def after (x : EvalM α) (m : Machine) : Machine :=
  match x m with
  | .ok _ n | .error _ n => n

def answer (x : EvalM α) (m : Machine) : Except Stop α :=
  match x m with
  | .ok a _ => .ok a
  | .error e _ => .error e

lemma get_bind (f : Machine → EvalM α) (m : Machine) : (get >>= f) m = f m m := rfl

lemma answer_bind (x : EvalM α) (f : α → EvalM β) (m : Machine) :
    (x >>= f).answer m = match x.answer m with
      | .ok a => (f a).answer (x.after m)
      | .error e => .error e := by
  change answer (EStateM.bind x f) m = _
  rw [answer, EStateM.bind, answer, after]
  cases x m <;> rfl

lemma after_bind (x : EvalM α) (f : α → EvalM β) (m : Machine) :
    (x >>= f).after m = match x.answer m with
      | .ok a => (f a).after (x.after m)
      | .error _ => x.after m := by
  change after (EStateM.bind x f) m = _
  rw [after, EStateM.bind, answer, after]
  cases x m <;> rfl

end EvalM

section

variable {ε σ α β : Type}

/-- Started where `P` holds, `x` succeeds with a value and a state that `Q` relates, or it fails in a
state where `E` holds. -/
def Ensures (P : σ → Prop) (x : EStateM ε σ α) (Q : α → σ → Prop) (E : σ → Prop) : Prop :=
  ∀ s, P s →
    match x s with
    | .ok a t => Q a t
    | .error _ t => E t

namespace Ensures

variable {P P' E : σ → Prop} {Q R : α → σ → Prop} {T : β → σ → Prop} {x y : EStateM ε σ α}

lemma ok (h : Ensures P x Q E) {s t : σ} {a : α} (hp : P s) (hx : x s = .ok a t) : Q a t := by
  have hs := h s hp
  rwa [hx] at hs

lemma error (h : Ensures P x Q E) {s t : σ} {e : ε} (hp : P s) (hx : x s = .error e t) : E t := by
  have hs := h s hp
  rwa [hx] at hs

lemma mono (h : Ensures P x Q E) (hp : ∀ s, P' s → P s) (hq : ∀ a s, Q a s → R a s) :
    Ensures P' x R E := by
  intro s hs
  have hx := h s (hp s hs)
  cases hs : x s with
  | ok a t => exact hq a t (by rwa [hs] at hx)
  | error e t => rwa [hs] at hx

lemma pure {a : α} (h : ∀ s, P s → Q a s) : Ensures P (pure a : EStateM ε σ α) Q E := h

lemma skip (a : α) : Ensures P (Pure.pure a : EStateM ε σ α) (fun _ => P) E := pure fun _ hs => hs

lemma throw {e : ε} (h : ∀ s, P s → E s) : Ensures P (throw e : EStateM ε σ α) Q E := h

lemma throw_bind {e : ε} {f : α → EStateM ε σ β} (h : ∀ s, P s → E s) :
    Ensures P (MonadExcept.throw e >>= f) T E := h

lemma bind {f : α → EStateM ε σ β} (hx : Ensures P x Q E) (hf : ∀ a, Ensures (Q a) (f a) T E) :
    Ensures P (x >>= f) T E := by
  intro s hs
  change match EStateM.bind x f s with
    | .ok b t => T b t
    | .error _ t => E t
  have hs := hx s hs
  rw [EStateM.bind]
  cases hr : x s with
  | ok a t => exact hf a t (by rwa [hr] at hs)
  | error e t => rwa [hr] at hs

lemma get_bind {f : σ → EStateM ε σ α} (hf : ∀ s, P s → Ensures (· = s) (f s) Q E) :
    Ensures P (get >>= f) Q E :=
  fun s hs => hf s hs s rfl

lemma read {f : σ → EStateM ε σ α} (hf : ∀ s, P s → Ensures P (f s) Q E) : Ensures P (get >>= f) Q E :=
  get_bind fun s hs => (hf s hs).mono (fun _ h => h ▸ hs) fun _ _ h => h

lemma modify {f : σ → σ} {Q : PUnit → σ → Prop} (hf : ∀ s, P s → Q ⟨⟩ (f s)) :
    Ensures P (modify f : EStateM ε σ PUnit) Q E :=
  hf

lemma set {t : σ} {Q : PUnit → σ → Prop} (h : Q ⟨⟩ t) : Ensures P (set t : EStateM ε σ PUnit) Q E :=
  fun _ _ => h

lemma ofExcept {z : Except ε α} (h : ∀ a s, P s → Q a s) (he : ∀ s, P s → E s) :
    Ensures P (ofExcept z : EStateM ε σ α) Q E := by
  cases z with
  | ok a => exact pure (h a)
  | error e => exact throw he

lemma discard {Q : PUnit → σ → Prop} (h : Ensures P x (fun _ => Q ⟨⟩) E) : Ensures P (discard x) Q E :=
  h.bind fun _ => pure fun _ hs => hs

lemma map {f : α → β} (h : Ensures P x (fun a => T (f a)) E) : Ensures P (f <$> x) T E := by
  rw [map_eq_pure_bind]
  exact h.bind fun _ => pure fun _ hs => hs

lemma ite_of {p : Prop} [Decidable p] (hx : p → Ensures P x Q E) (hy : ¬ p → Ensures P y Q E) :
    Ensures P (if p then x else y) Q E := by
  split
  · next hp => exact hx hp
  · next hp => exact hy hp

lemma ite {p : Prop} [Decidable p] (hx : Ensures P x Q E) (hy : Ensures P y Q E) :
    Ensures P (if p then x else y) Q E := ite_of (fun _ => hx) fun _ => hy

end Ensures

end

namespace Ensures

variable {α : Type}

lemma onStack {x : StackM α} {P E : Stack → Prop} {Q : α → Stack → Prop} (h : Ensures P x Q E) :
    Ensures (fun m => P m.stack) (onStack x) (fun a m => Q a m.stack) fun m => E m.stack := by
  intro m hm
  have hs := h m.stack hm
  rw [BitcoinTx.onStack]
  cases hx : x m.stack <;> rwa [hx] at hs

lemma after {x : EvalM α} {P E : Machine → Prop} (h : Ensures P x (fun _ => E) E) {m : Machine}
    (hm : P m) : E (x.after m) := by
  have hx := h m hm
  rw [EvalM.after]
  cases hr : x m <;> rwa [hr] at hx

end Ensures

end BitcoinTx
