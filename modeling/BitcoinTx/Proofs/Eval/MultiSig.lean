import BitcoinTx.Proofs.Eval.Standard
import BitcoinTx.Proofs.Script.Multisig
import Mathlib.Data.List.Forall2

/-! Checking several signatures against several keys. -/

namespace BitcoinTx

open Outcome

lemma Stack.popMany_ok {k : Nat} {l : List Bytes} {s t : Stack} :
    popMany k s = .ok l t ↔ l.length = k ∧ s = l.reverse ++ t := by
  induction k generalizing l s t with
  | zero =>
    rw [popMany, pure_ok]
    constructor
    · rintro ⟨rfl, rfl⟩
      exact ⟨rfl, rfl⟩
    · rintro ⟨hl, rfl⟩
      obtain rfl := List.length_eq_zero_iff.mp hl
      exact ⟨rfl, rfl⟩
  | succ k ih =>
    rw [popMany, bind_ok]
    simp only [pop_ok, bind_ok, ih, pure_ok]
    constructor
    · rintro ⟨x, _, rfl, l, _, ⟨rfl, rfl⟩, rfl, rfl⟩
      simp
    · rintro ⟨hl, rfl⟩
      obtain ⟨l, x, rfl⟩ := l.eq_nil_or_concat'.resolve_left (by rintro rfl; cases hl)
      exact ⟨x, l.reverse ++ t, by simp, l, t, ⟨by simpa using hl, rfl⟩, rfl, rfl⟩

namespace Evaluator

section

variable {m n : Machine} {x : Unit}

lemma popMany_bind_ok {α : Type} {k : Nat} {f : List Bytes → EvalM α} {y : α} :
    (onStack (Stack.popMany k) >>= f) m = .ok y n ↔
      ∃ l t, l.length = k ∧ m.stack = l.reverse ++ t ∧ f l { m with stack := t } = .ok y n := by
  rw [bind_ok]
  simp only [onStack_ok, Stack.popMany_ok]
  constructor
  · rintro ⟨l, _, ⟨t, ⟨hl, hs⟩, rfl⟩, h⟩
    exact ⟨l, t, hl, hs, h⟩
  · rintro ⟨l, t, hl, hs, h⟩
    exact ⟨l, _, ⟨t, ⟨hl, hs⟩, rfl⟩, h⟩

lemma discard_pop_bind_ok {α : Type} {f : Unit → EvalM α} {y : α} :
    (discard (onStack Stack.pop) >>= f) m = .ok y n ↔
      ∃ z t, m.stack = z :: t ∧ f () { m with stack := t } = .ok y n := by
  rw [seq_ok]
  simp only [discard_ok, onStack_ok, Stack.pop_ok]
  constructor
  · rintro ⟨_, ⟨z, t, hs, rfl⟩, h⟩
    exact ⟨z, t, hs, h⟩
  · rintro ⟨z, t, hs, h⟩
    exact ⟨_, ⟨z, t, hs, rfl⟩, h⟩

lemma countOps_bind_ok {α : Type} {c : Evaluator} {k : Nat} {f : Unit → EvalM α} {y : α} :
    (c.countOps k >>= f) m = .ok y n ↔
      m.opCount + k ≤ c.limits.maxOps ∧ f () { m with opCount := m.opCount + k } = .ok y n := by
  rw [seq_ok]
  simp only [countOps_ok, and_assoc, exists_eq_left', exists_and_left]

end

section

variable {α β : Type} {R : α → β → Prop} {a : α} {l : List α} {l' : List β}

lemma length_le_of_sublistForall₂ (h : List.SublistForall₂ R l l') : l.length ≤ l'.length := by
  obtain ⟨k, hk, hs⟩ := List.sublistForall₂_iff.mp h
  rw [hk.length_eq]
  exact hs.length_le

lemma tail_of_sublistForall₂ (h : List.SublistForall₂ R (a :: l) l') :
    List.SublistForall₂ R l l' := by
  obtain ⟨k, hk, hs⟩ := List.sublistForall₂_iff.mp h
  cases hk with
  | cons _ hk => exact List.sublistForall₂_iff.mpr ⟨_, hk, (List.sublist_cons_self _ _).trans hs⟩

end

section

variable {m : Type → Type} [Monad m] {check : Bytes → Bytes → m Bool} {s k : Bytes} {l l' : List Bytes}

lemma matchWith_of_lt (h : l'.length < l.length) : matchWith check l l' = pure false := by
  cases l with
  | nil => exact absurd h (Nat.not_lt_zero _)
  | cons s l =>
    cases l' with
    | nil => rfl
    | cons k l' => rw [matchWith, if_pos (Nat.lt_of_succ_lt_succ h)]

lemma matchWith_cons (h : l.length ≤ l'.length) : matchWith check (s :: l) (k :: l') =
    check s k >>= fun v => if v then matchWith check l l' else matchWith check (s :: l) l' := by
  rw [matchWith, if_neg (Nat.not_lt.mpr h)]

end

section

variable {c : Evaluator} {signatures keys : List Bytes}

lemma matchSignatures_ok
    (h : ∀ s ∈ signatures, ∀ k ∈ keys, ∃ v, c.checkSignature s k = .ok v) :
    ∃ v, c.matchSignatures signatures keys = .ok v ∧
      (v = true ↔ List.SublistForall₂ (c.checkSignature · · = .ok true) signatures keys) := by
  induction keys generalizing signatures with
  | nil =>
    cases signatures with
    | nil => exact ⟨true, rfl, by simp [List.SublistForall₂.nil]⟩
    | cons s l => exact ⟨false, rfl, by simp; nofun⟩
  | cons k keys ih =>
    cases signatures with
    | nil => exact ⟨true, rfl, by simp [List.SublistForall₂.nil]⟩
    | cons s l =>
      obtain ⟨hs, hl⟩ := List.forall_mem_cons.mp h
      obtain ⟨⟨v, hv⟩, hs⟩ := List.forall_mem_cons.mp hs
      have hl s (hs : s ∈ l) := (List.forall_mem_cons.mp (hl s hs)).2
      by_cases hlen : keys.length < l.length
      · refine ⟨false, matchWith_of_lt (Nat.succ_lt_succ hlen), by simp, fun hsub => ?_⟩
        have h := length_le_of_sublistForall₂ hsub
        rw [List.length_cons, List.length_cons] at h
        omega
      cases v with
      | true =>
        obtain ⟨w, hw, hiff⟩ := ih hl
        refine ⟨w, by rw [matchSignatures, matchWith_cons (Nat.not_lt.mp hlen), hv]; exact hw, hiff.trans ⟨.cons hv, ?_⟩⟩
        -- a match without this key needs no more keys for the signatures that are left
        intro hsub
        cases hsub with
        | cons _ hsub => exact hsub
        | cons_right hsub => exact tail_of_sublistForall₂ hsub
      | false =>
        obtain ⟨w, hw, hiff⟩ := ih (List.forall_mem_cons.mpr ⟨hs, hl⟩)
        refine ⟨w, by rw [matchSignatures, matchWith_cons (Nat.not_lt.mp hlen), hv]; exact hw,
          hiff.trans ⟨.cons_right, ?_⟩⟩
        intro hsub
        cases hsub with
        | cons hk _ =>
          rw [hv] at hk
          cases hk
        | cons_right hsub => exact hsub

/-- The stack `s` counts out keys and signatures for a check, which takes one item more and leaves
`t`. -/
def Offers (c : Evaluator) (keys signatures : List Bytes) (s t : Stack) : Prop :=
  ∃ count required dummy,
    s = count :: (keys.reverse ++ required :: (signatures.reverse ++ dummy :: t)) ∧
      ScriptNumber.decode count c.limits.maxNumberSize true = .ok keys.length ∧
      ScriptNumber.decode required c.limits.maxNumberSize true = .ok signatures.length ∧
      keys.length ≤ c.limits.maxMultisigKeys ∧ signatures.length ≤ keys.length

lemma checkMultiSig_ok {m n : Machine} {x : Unit} : c.checkMultiSig m = .ok x n ↔
    ∃ keys signatures t v, c.Offers keys signatures m.stack t ∧
      m.opCount + keys.length ≤ c.limits.maxOps ∧ c.matchSignatures signatures keys = .ok v ∧
      { m with stack := ScriptNumber.ofBool v :: t, opCount := m.opCount + keys.length } = n := by
  rw [checkMultiSig]
  simp only [popNumber_bind_ok, unless_bind_ok, countOps_bind_ok, popMany_bind_ok,
    discard_pop_bind_ok, ofResult_bind_ok]
  constructor
  · rintro ⟨count, _, v, hs, hcount, hv, hops, keys, _, hkeys, rfl, required, _, w, rfl, hrequired,
      hw, signatures, _, hsignatures, rfl, dummy, t, rfl, b, hmatch, hend⟩
    obtain rfl : v = keys.length := by omega
    obtain rfl : w = signatures.length := by omega
    rw [Int.toNat_natCast] at hops hend
    have hoffer : c.Offers keys signatures m.stack t :=
      ⟨count, required, dummy, hs, hcount, hrequired, by omega, by omega⟩
    exact ⟨keys, signatures, t, b, hoffer, hops, hmatch, (EStateM.Result.ok.inj hend).2⟩
  · rintro ⟨keys, signatures, t, b, ⟨count, required, dummy, hs, hcount, hrequired, hmax, hlen⟩,
      hops, hmatch, rfl⟩
    exact ⟨count, _, _, hs, hcount, by omega, hops, keys, _, rfl, rfl, required, _, _, rfl,
      hrequired, by omega, signatures, _, rfl, rfl, dummy, t, rfl, b, hmatch, rfl⟩

end

variable [Crypto] {c : Evaluator} {i : Instruction} {s : Stack} {l : List Condition} {n : Nat}
variable {b : EvalState}

lemma performs_checkMultiSig {verify : Bool} (h : i.opcode.operation = .checkMultiSig verify) :
    c.Performs i ⟨s, l, n⟩ b ↔ ∃ keys signatures t v, c.Offers keys signatures s t ∧
      n + keys.length ≤ c.limits.maxOps ∧ c.matchSignatures signatures keys = .ok v ∧
      (verify = true → v = true) ∧
      ⟨if verify then t else ScriptNumber.ofBool v :: t, l, n + keys.length⟩ = b := by
  rw [Performs, h]
  simp only [perform, seq_ok, checkMultiSig_ok]
  constructor
  · rintro ⟨m, ⟨_, ⟨keys, signatures, t, v, hoffer, hops, hmatch, rfl⟩, hend⟩, rfl⟩
    obtain ⟨hv, rfl⟩ := (conclude_ok rfl).mp hend
    exact ⟨keys, signatures, t, v, hoffer, hops, hmatch, hv, rfl⟩
  · rintro ⟨keys, signatures, t, v, hoffer, hops, hmatch, hv, rfl⟩
    exact ⟨_, ⟨_, ⟨keys, signatures, t, v, hoffer, hops, hmatch, rfl⟩,
      (conclude_ok rfl).mpr ⟨hv, rfl⟩⟩, rfl⟩

omit [Crypto] in
lemma item_ofCount {k : Nat} (h₀ : 0 < k) (h : k ≤ 16) :
    (Instruction.op (.ofCount k)).item = ScriptNumber.encode k := by
  have hall : ∀ k ≤ 16, 0 < k → (Opcode.ofCount k).operation = .pushNumber k := by decide
  have ho : (Instruction.op (.ofCount k)).opcode.operation = .pushNumber k := hall k h h₀
  rw [Instruction.item, ho]

lemma runs_multisigPushes {required : Nat} {keys : List Bytes} (h₀ : 0 < required)
    (hle : required ≤ keys.length) (hsmall : keys.length ≤ 16)
    (hsize : ∀ k ∈ keys, k.length < 2 ^ 32) (hk : ∀ k ∈ keys, k.length ≤ c.limits.maxElementSize)
    (hdepth : s.length + keys.length + 2 ≤ c.limits.maxStackSize) :
    c.Runs (Script.multisigPushes required keys) ⟨s, [], n⟩
      ⟨ScriptNumber.encode keys.length ::
        (keys.reverse ++ ScriptNumber.encode required :: s), [], n⟩ := by
  have hpush : ∀ i ∈ Script.multisigPushes required keys, i.IsPush := by
    simp only [Script.multisigPushes, List.forall_mem_append, List.forall_mem_cons,
      List.forall_mem_map]
    exact ⟨⟨(Opcode.ofCount_spec h₀ (by omega)).2.2.1,
      fun k hm => Instruction.isPush_pushing (hsize k hm)⟩,
      (Opcode.ofCount_spec (by omega) hsmall).2.2.1, by simp⟩
  refine (runs_pushes hpush).mpr ⟨?_, fun _ => ?_, ?_⟩
  · simp only [Script.multisigPushes, List.forall_mem_append, List.forall_mem_cons,
      List.forall_mem_map, Instruction.content_pushing]
    exact ⟨⟨Nat.zero_le _, hk⟩, Nat.zero_le _, by simp⟩
  · simp only [Script.multisigPushes, List.length_append, List.length_cons, List.length_map,
      List.length_nil]
    omega
  · simp [Script.multisigPushes, Instruction.map_item_pushing hsize, item_ofCount h₀
      (by omega : required ≤ 16), item_ofCount (by omega) hsmall]

lemma takes_multisig {r : Script} {keys signatures : List Bytes} {dummy : Bytes} {rest : Stack}
    {v : Bool} (hr : Script.multisig signatures.length keys = .ok r)
    (hk : ∀ k ∈ keys, k.length ≤ c.limits.maxElementSize) (hnum : 0 < c.limits.maxNumberSize)
    (hdepth : signatures.length + rest.length + keys.length + 3 ≤ c.limits.maxStackSize)
    (hmax : keys.length ≤ c.limits.maxMultisigKeys) (hops : keys.length + 1 ≤ c.limits.maxOps)
    (hv : c.matchSignatures signatures keys = .ok v) :
    c.Takes r (signatures.reverse ++ dummy :: rest) (ScriptNumber.ofBool v :: rest) := by
  obtain ⟨h₀, hle, hsmall, hsize, -⟩ := Script.multisig_ok hr
  have hdecode {k : Nat} (hk : k ≤ 16) :
      ScriptNumber.decode (ScriptNumber.encode k) c.limits.maxNumberSize true = .ok (k : Int) :=
    ScriptNumber.decode_encode_of_lt (by omega) hnum
  have hoffer : c.Offers keys signatures (ScriptNumber.encode keys.length :: (keys.reverse ++
      ScriptNumber.encode signatures.length :: (signatures.reverse ++ dummy :: rest))) rest :=
    ⟨_, _, dummy, rfl, hdecode hsmall, hdecode (by omega), hmax, hle⟩
  have hcheck : c.Performs (.op .checkMultiSig) ⟨_, [], 1⟩
      ⟨ScriptNumber.ofBool v :: rest, [], 1 + keys.length⟩ :=
    (performs_checkMultiSig (show (Instruction.op .checkMultiSig).opcode.operation =
      .checkMultiSig false from rfl)).mpr
        ⟨keys, signatures, rest, v, hoffer, by omega, hv, by simp, rfl⟩
  refine ⟨_, Script.instructions_multisig hr, completes_append.mpr ⟨_, 1 + keys.length,
    runs_multisigPushes h₀ hle hsmall hsize hk ?_, (runs_command (by decide)).mpr
      ⟨by omega, _, hcheck, ?_, runs_nil.mpr rfl⟩⟩⟩
  · simp only [List.length_append, List.length_reverse, List.length_cons]
    omega
  · change rest.length + 1 ≤ c.limits.maxStackSize
    omega

lemma verify_multisig_pushing {r : Script} {keys signatures : List Bytes} {m : Machine}
    (hc : c.limits = {}) (hr : Script.multisig signatures.length keys = .ok r)
    (hsize : r.size ≤ 520) (hlen : ∀ b ∈ signatures, b.length ≤ 520)
    (hmatch : c.matchSignatures signatures keys = .ok true) :
    ∃ m', c.verify ⟨Instruction.encodeAll (([] :: (signatures ++ [r.bytes])).map .pushing)⟩
      (.p2sh (hash160 r.bytes)) m = .ok () m' := by
  obtain ⟨-, hle, hsmall, -, hbytes⟩ := Script.multisig_ok hr
  have hkeys k (hk : k ∈ keys) : k.length ≤ 520 := by
    have hmem : Instruction.pushing k ∈ Script.multisigProgram signatures.length keys := by
      simp only [Script.multisigProgram, Script.multisigPushes, List.mem_append, List.mem_cons,
        List.mem_map]
      exact .inl (.inl (.inr ⟨k, hk, rfl⟩))
    have hk := Instruction.length_content_le hmem
    rw [Instruction.content_pushing] at hk
    rw [← hbytes] at hsize
    exact Nat.le_trans hk hsize
  have htakes : c.Takes r (signatures.reverse ++ [] :: []) [ScriptNumber.ofBool true] := by
    refine takes_multisig hr ?_ ?_ ?_ ?_ ?_ hmatch <;> rw [hc]
    · exact hkeys
    · decide
    · exact Nat.le_trans (by simp; omega : _ ≤ 35) (by decide)
    · exact Nat.le_trans hsmall (by decide)
    · exact Nat.le_trans (Nat.succ_le_succ hsmall) (by decide)
  refine verify_p2sh_pushing hc ?_ ?_ ?_ htakes (Stack.topTrue_ofBool.mpr rfl)
  · rw [List.forall_mem_cons, List.forall_mem_append]
    exact ⟨Nat.zero_le _, hlen, List.forall_mem_singleton.mpr hsize⟩
  · simp only [List.length_cons, List.length_append, List.length_nil]
    omega
  · simp

end Evaluator

end BitcoinTx
