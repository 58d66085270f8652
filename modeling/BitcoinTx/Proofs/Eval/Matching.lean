import BitcoinTx.Proofs.Eval.MultiSig
import Mathlib.Data.Fin.VecNotation
import Mathlib.Data.List.NodupEquivFin

/-! What a check of several signatures decides, and which of the single checks it makes. -/

namespace BitcoinTx

open Outcome

lemma sublistForall₂_iff_exists_strictMono {α β : Type} {R : α → β → Prop} {l : List α}
    {l' : List β} : List.SublistForall₂ R l l' ↔
      ∃ f : Fin l.length → Fin l'.length, StrictMono f ∧ ∀ i, R (l.get i) (l'.get (f i)) := by
  rw [List.sublistForall₂_iff]
  constructor
  · rintro ⟨k, hk, hs⟩
    obtain ⟨hlen, hk⟩ := List.forall₂_iff_get.mp hk
    obtain ⟨f, hf⟩ := List.sublist_iff_exists_fin_orderEmbedding_get_eq.mp hs
    refine ⟨fun i => f (i.cast hlen), fun i j hij => f.strictMono hij, fun i => ?_⟩
    rw [← hf]
    exact hk i i.isLt (hlen ▸ i.isLt)
  · rintro ⟨f, hmono, hf⟩
    have hlen : (List.ofFn fun i => l'.get (f i)).length = l.length := List.length_ofFn
    refine ⟨List.ofFn fun i => l'.get (f i), List.forall₂_iff_get.mpr ⟨hlen.symm, ?_⟩,
      List.sublist_iff_exists_fin_orderEmbedding_get_eq.mpr ⟨.ofStrictMono
        (fun i => f (i.cast hlen)) fun i j hij => hmono hij, fun i => ?_⟩⟩
    · intro i hi _
      simpa using hf ⟨i, hi⟩
    · simp
      rfl

namespace Evaluator

variable (c : Evaluator) (signatures keys : List Bytes)

/-- Each signature is that of a key, and the keys stand in the order of their signatures. -/
def Matches : Prop :=
  ∃ f : Fin signatures.length → Fin keys.length, StrictMono f ∧
    ∀ i, c.checkSignature (signatures.get i) (keys.get (f i)) = .ok true

variable {c signatures keys} {i j : Nat}

def notedCheck (c : Evaluator) (s k : Bytes) : EStateM EvalError (List (Bytes × Bytes)) Bool := do
  modify (· ++ [(s, k)])
  ofExcept (c.checkSignature s k)

def endWith (r : Except EvalError Bool) (noted : List (Bytes × Bytes)) :
    EStateM.Result EvalError (List (Bytes × Bytes)) Bool :=
  match r with
  | .ok v => .ok v noted
  | .error e => .error e noted

lemma notedCheck_eq (c : Evaluator) (s k : Bytes) (noted : List (Bytes × Bytes)) :
    c.notedCheck s k noted = endWith (c.checkSignature s k) (noted ++ [(s, k)]) := by
  change (ofExcept (c.checkSignature s k) : EStateM _ _ _) (noted ++ [(s, k)]) = _
  cases c.checkSignature s k <;> rfl

lemma notedCheck_bind {s k : Bytes} {f : Bool → EStateM EvalError (List (Bytes × Bytes)) Bool}
    (noted : List (Bytes × Bytes)) : (c.notedCheck s k >>= f) noted =
      match c.checkSignature s k with
      | .ok v => f v (noted ++ [(s, k)])
      | .error e => .error e (noted ++ [(s, k)]) := by
  change EStateM.bind (c.notedCheck s k) f noted = _
  rw [EStateM.bind, notedCheck_eq]
  cases c.checkSignature s k <;> rfl

variable (c signatures keys) in
/-- The search by positions ends as the one over the lists `l` and `l'` does, after the same checks. -/
def Follows (s : Search) (l l' : List Bytes) : Prop :=
  ∃ r checks, s.outcome = some r ∧ matchWith c.checkSignature l l' = r ∧
    (∀ noted, matchWith c.notedCheck l l' noted = endWith r (noted ++ checks)) ∧
    List.Forall₂ (fun p q => signatures[p.1]? = some q.1 ∧ keys[p.2]? = some q.2) s.tried checks

lemma follows_of_eq_pure {v : Bool} {l l' : List Bytes}
    (h : ∀ {m : Type → Type} [Monad m] (check : Bytes → Bytes → m Bool), matchWith check l l' = pure v) :
    c.Follows signatures keys ⟨some (.ok v), []⟩ l l' := by
  refine ⟨.ok v, [], rfl, h _, fun noted => ?_, .nil⟩
  rw [h, List.append_nil]
  rfl

lemma Follows.after {s : Search} {l l' rest : List Bytes} {x k : Bytes} {v : Bool}
    (h : c.Follows signatures keys s rest l') (hx : signatures[i]? = some x) (hk : keys[j]? = some k)
    (hv : c.checkSignature x k = .ok v) (hlen : l.length ≤ l'.length)
    (hrest : rest = if v then l else x :: l) :
    c.Follows signatures keys (s.after i j) (x :: l) (k :: l') := by
  obtain ⟨r, checks, hr, hplain, hnoted, hall⟩ := h
  refine ⟨r, (x, k) :: checks, hr, ?_, fun noted => ?_, .cons ⟨hx, hk⟩ hall⟩
  · rw [matchWith_cons hlen, hv, ← hplain, hrest]
    cases v <;> rfl
  · have hnoted := hnoted (noted ++ [(x, k)])
    rw [List.append_assoc, List.singleton_append, hrest] at hnoted
    rw [matchWith_cons hlen, notedCheck_bind, hv, ← hnoted]
    cases v <;> rfl

lemma Follows.lt_length {s : Search} {l l' : List Bytes} (h : c.Follows signatures keys s l l') :
    ∀ p ∈ s.tried, p.1 < signatures.length ∧ p.2 < keys.length := by
  obtain ⟨_, checks, -, -, -, hall⟩ := h
  generalize s.tried = tried at hall
  induction hall with
  | nil => exact List.forall_mem_nil _
  | cons hp _ ih =>
    obtain ⟨hi, -⟩ := List.getElem?_eq_some_iff.mp hp.1
    obtain ⟨hj, -⟩ := List.getElem?_eq_some_iff.mp hp.2
    exact List.forall_mem_cons.mpr ⟨⟨hi, hj⟩, ih⟩

lemma follows_search (hi : i ≤ signatures.length) (hj : j ≤ keys.length) :
    c.Follows signatures keys (c.search signatures keys i j) (signatures.drop i) (keys.drop j) := by
  have hdrop {l : List Bytes} {n : Nat} {x : Bytes} (h : l[n]? = some x) :
      l.drop n = x :: l.drop (n + 1) := by
    obtain ⟨hn, rfl⟩ := List.getElem?_eq_some_iff.mp h
    exact List.drop_eq_getElem_cons hn
  have htails {a b : Nat} (h : ¬signatures.length ≤ a) (hlen : ¬keys.length - b < signatures.length - a) :
      (signatures.drop (a + 1)).length ≤ (keys.drop (b + 1)).length := by
    rw [List.length_drop, List.length_drop]
    omega
  fun_induction c.search signatures keys i j with
  | case1 i j h =>
    rw [List.drop_of_length_le h]
    exact follows_of_eq_pure fun _ => by rw [matchWith]
  | case2 i j h h' => exact absurd hj (Nat.not_le_of_lt h')
  | case3 i j h h' hlen =>
    exact follows_of_eq_pure fun _ => matchWith_of_lt (by simpa only [List.length_drop] using hlen)
  | case4 i j h h' hlen s k hk hs e he =>
    rw [hdrop hs, hdrop hk]
    refine ⟨.error e, [(s, k)], rfl, ?_, fun noted => ?_, .cons ⟨hs, hk⟩ .nil⟩
    · rw [matchWith_cons (htails h hlen), he]
      rfl
    · rw [matchWith_cons (htails h hlen), notedCheck_bind, he]
      rfl
  | case5 i j h h' hlen s k hk hs hv ih =>
    rw [hdrop hs, hdrop hk]
    exact (ih (by omega) (by omega)).after hs hk hv (htails h hlen) rfl
  | case6 i j h h' hlen s k hk hs hv ih =>
    rw [hdrop hs, hdrop hk]
    exact (ih hi (by omega)).after hs hk hv (htails h hlen) (hdrop hs)
  | case7 i j h h' hlen hout =>
    exact (hout _ _ (List.getElem?_eq_getElem (by omega : i < signatures.length))
      (List.getElem?_eq_getElem (by omega : j < keys.length))).elim

lemma length_tried_le : (c.search signatures keys i j).tried.length ≤ keys.length - j := by
  fun_induction c.search signatures keys i j with
  | case1 | case2 | case3 | case7 => exact Nat.zero_le _
  | case4 i j =>
    rw [List.length_singleton]
    omega
  | case5 i j _ _ _ _ _ _ _ _ ih | case6 i j _ _ _ _ _ _ _ _ ih =>
    rw [Search.after, List.length_cons]
    omega

variable [Crypto] {m : Machine} {hasher : UInt32 → Except EvalError Hash256}
variable {verifier : Hash256 → Bytes → Bytes → Bool} {count required dummy : Bytes} {t : List Bytes}

omit [Crypto] in
lemma exists_checkSignature (hhasher : c.hasher = some hasher) (hhash : ∀ n, ∃ d, hasher n = .ok d)
    (hverifier : c.verifier = some verifier) (s k : Bytes) : ∃ v, c.checkSignature s k = .ok v := by
  rw [checkSignature, hhasher, hverifier]
  cases s.getLast? with
  | none => exact ⟨false, rfl⟩
  | some last =>
    obtain ⟨d, hd⟩ := hhash last.toUInt32
    exact ⟨verifier d s.dropLast k, by simp only [hd]; rfl⟩

/-- A check of the signatures against the keys that stand below it on the stack succeeds, and leaves
whether each signature is that of a key further down than the key of the signature before. Of the
single checks it makes at most one for each key, and it reads neither list behind its end. -/
theorem perform_checkMultiSig_matches (hhasher : c.hasher = some hasher)
    (hhash : ∀ n, ∃ d, hasher n = .ok d) (hverifier : c.verifier = some verifier)
    (hmax : keys.length ≤ c.limits.maxMultisigKeys) (hle : signatures.length ≤ keys.length)
    (hcount : ScriptNumber.decode count c.limits.maxNumberSize true = .ok keys.length)
    (hrequired : ScriptNumber.decode required c.limits.maxNumberSize true = .ok signatures.length)
    (hops : m.opCount + keys.length ≤ c.limits.maxOps)
    (hstack : m.stack = Stack.ofItems (t ++ [dummy] ++ signatures ++ [required] ++ keys ++ [count])) :
    ∃ v, c.perform (.op .checkMultiSig) Opcode.checkMultiSig.operation m = .ok ()
        { m with
          stack := Stack.ofItems (t ++ [ScriptNumber.ofBool v])
          opCount := m.opCount + keys.length } ∧
      (v = true ↔ c.Matches signatures keys) ∧
      (c.search signatures keys 0 0).outcome = some (.ok v) ∧
      (c.search signatures keys 0 0).tried.length ≤ keys.length ∧
      ∀ p ∈ (c.search signatures keys 0 0).tried, p.1 < signatures.length ∧ p.2 < keys.length := by
  obtain ⟨v, hv, hiff⟩ := matchSignatures_ok fun s (_ : s ∈ signatures) k (_ : k ∈ keys) =>
    exists_checkSignature hhasher hhash hverifier s k
  have hfollows := follows_search (c := c) (Nat.zero_le signatures.length) (Nat.zero_le keys.length)
  have hsearch : (c.search signatures keys 0 0).outcome = some (.ok v) := by
    obtain ⟨r, -, hr, hplain, -⟩ := hfollows
    rw [hr, ← hplain]
    exact congrArg some hv
  have hoffer : c.Offers keys signatures m.stack (Stack.ofItems t) :=
    ⟨count, required, dummy, by simp [hstack, Stack.ofItems], hcount, hrequired, hmax, hle⟩
  have hcheck : c.checkMultiSig m = .ok ()
      { m with
        stack := ScriptNumber.ofBool v :: Stack.ofItems t
        opCount := m.opCount + keys.length } :=
    checkMultiSig_ok.mpr ⟨keys, signatures, _, v, hoffer, hops, hv, rfl⟩
  refine ⟨v, ?_, hiff.trans sublistForall₂_iff_exists_strictMono, hsearch, length_tried_le,
    hfollows.lt_length⟩
  have ho : Opcode.checkMultiSig.operation = .checkMultiSig false := rfl
  rw [ho, perform, seq_ok]
  exact ⟨_, hcheck, (conclude_ok rfl).mpr ⟨by simp, by simp [Stack.ofItems]⟩⟩

end Evaluator

def keyEvaluator : Evaluator where
  hasher := some fun _ => .ok (.zero 32)
  verifier := some fun _ signature key => signature = key

namespace Evaluator

/-- The signatures of the first and the third of three keys, above an item that is not part of the
check. -/
theorem perform_checkMultiSig_matches_firstAndThird :
    keyEvaluator.Matches [[1, 1], [3, 1]] [[1], [2], [3]] ∧
      @perform Crypto.bitcoin keyEvaluator (.op .checkMultiSig) Opcode.checkMultiSig.operation
          { stack := Stack.ofItems [[9], [], [1, 1], [3, 1], [2], [1], [2], [3], [3]], opCount := 1 } =
        .ok () { stack := Stack.ofItems [[9], [1]], opCount := 4 } := by
  have hmatches : keyEvaluator.Matches [[1, 1], [3, 1]] [[1], [2], [3]] :=
    ⟨![0, 2], fun i j => by decide +revert, by decide⟩
  obtain ⟨v, hv, hiff, -⟩ := @perform_checkMultiSig_matches keyEvaluator [[1, 1], [3, 1]]
    [[1], [2], [3]] Crypto.bitcoin
    { stack := Stack.ofItems [[9], [], [1, 1], [3, 1], [2], [1], [2], [3], [3]], opCount := 1 }
    _ _ [3] [2] [] [[9]] rfl (fun _ => ⟨_, rfl⟩) rfl (by decide) (by decide) (by decide) (by decide)
    (by decide) rfl
  obtain rfl := hiff.mpr hmatches
  exact ⟨hmatches, hv⟩

end Evaluator

end BitcoinTx
