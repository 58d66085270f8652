import BitcoinTx.Proofs.Eval.Advance
import BitcoinTx.Proofs.Eval.Number
import Mathlib.Algebra.Group.Nat.Defs

/-! How long the items of the stack become, and how many operations are counted. -/

namespace BitcoinTx

open Outcome

namespace ScriptNumber

lemma length_encode_le_of_fits {v : Int} (h : Fits v) : (encode v).length ≤ 9 := by
  obtain ⟨hl, hu⟩ := h
  have hpow : 256 ^ 9 = 0x1000000000000000000 := by decide
  apply length_encode_le_iff.mpr
  omega

lemma fits_ofLength (n : Nat) : Fits (ofLength n) := by
  have hl := (Int64.ofNat n).le_toInt
  have hu := (Int64.ofNat n).toInt_lt
  rw [Fits, ofLength]
  omega

lemma length_ofBool_le (v : Bool) : (ofBool v).length ≤ 1 := by cases v <;> decide

end ScriptNumber

lemma Opcode.fits_of_pushNumber {o : Opcode} {v : Int} (h : o.operation = .pushNumber v) :
    ScriptNumber.Fits v := by
  have hall : ∀ n < 256, (match Opcode.operation (.ofNat n) with
      | .pushNumber v => decide (ScriptNumber.Fits v)
      | _ => true) = true := by decide +kernel
  have ho := hall o.toNat o.toNat_lt
  rw [UInt8.ofNat_toNat, h] at ho
  exact of_decide_eq_true ho

lemma HashFunction.length_run_le [Crypto] (f : HashFunction) (b : Bytes) : (f.run b).length ≤ 32 := by
  cases f with
  | ripemd160 => exact Nat.le_trans (Nat.le_of_eq (BitcoinTx.ripemd160 b).property) (by decide)
  | hash160 => exact Nat.le_trans (Nat.le_of_eq (BitcoinTx.hash160 b).property) (by decide)
  | sha256 => exact Nat.le_of_eq (BitcoinTx.sha256 b).property
  | sha256d => exact Nat.le_of_eq (BitcoinTx.sha256d b).property

namespace Stack

def Within (k : Nat) (s : Stack) : Prop := ∀ b ∈ s, b.length ≤ k

variable {k : Nat} {b : Bytes} {s t : Stack}

lemma within_cons : Within k (b :: s) ↔ b.length ≤ k ∧ Within k s := List.forall_mem_cons

lemma Within.append (hs : Within k s) (ht : Within k t) : Within k (s ++ t) :=
  List.forall_mem_append.mpr ⟨hs, ht⟩

lemma Within.sublist (ht : Within k t) (h : s.Sublist t) : Within k s := fun b hb => ht b (h.subset hb)

def Yields (k : Nat) (x : StackM Bytes) : Prop :=
  Ensures (Within k) x (fun b s => b.length ≤ k ∧ Within k s) (Within k)

def Confines {α : Type} (k : Nat) (x : StackM α) : Prop :=
  Ensures (Within k) x (fun _ => Within k) (Within k)

lemma Yields.confines {x : StackM Bytes} (h : Yields k x) : Confines k x :=
  h.mono (fun _ hs => hs) fun _ _ hs => hs.2

lemma push_ensures : Ensures (fun s => b.length ≤ k ∧ Within k s) (push b) (fun _ => Within k) (Within k) :=
  .modify fun _ hs => within_cons.mpr hs

lemma Yields.push {x : StackM Bytes} (h : Yields k x) : Confines k (x >>= push) :=
  h.bind fun _ => push_ensures

lemma push_confines (hb : b.length ≤ k) : Confines k (push b) :=
  push_ensures.mono (fun _ hs => ⟨hb, hs⟩) fun _ _ hs => hs

lemma pop_yields : Yields k pop := by
  apply Ensures.read
  intro s hs
  cases s with
  | nil => exact .throw fun _ h => h
  | cons b s =>
    have hbs := within_cons.mp hs
    exact (Ensures.set (Q := fun _ => Within k) hbs.2).bind fun _ => .pure fun _ h => ⟨hbs.1, h⟩

lemma popNumber_confines (max : Nat) : Confines k (popNumber max) := by
  apply pop_yields.confines.bind
  intro b
  cases ScriptNumber.decode b max true with
  | ok v => exact .skip _
  | error e => exact .throw fun _ hs => hs

lemma popBool_confines : Confines k popBool :=
  Ensures.map (T := fun _ => Within k) pop_yields.confines

lemma peek_yields (i : Nat) : Yields k (peek i) := by
  apply Ensures.read
  intro s hs
  cases hi : s[i]? with
  | none => exact .throw fun _ h => h
  | some b => exact .pure fun _ h => ⟨hs b (List.mem_of_getElem? hi), h⟩

lemma nip_yields (i : Nat) : Yields k (nip i) := by
  apply (peek_yields i).bind
  intro b
  have herase : Ensures (fun s => b.length ≤ k ∧ Within k s) (modify (·.eraseIdx i) : StackM Unit)
      (fun _ s => b.length ≤ k ∧ Within k s) (Within k) :=
    .modify fun s hs => ⟨hs.1, hs.2.sublist (List.eraseIdx_sublist s i)⟩
  exact herase.bind fun _ => .pure fun _ hs => hs

lemma dup_confines (n : Nat) : Confines k (dup n) := by
  apply Ensures.ite
  · exact .throw_bind fun _ hs => hs
  · apply Ensures.read
    intro s hs
    apply Ensures.ite
    · exact .throw_bind fun _ h => h
    · exact .set ((hs.sublist (List.take_sublist n s)).append hs)

lemma drop_confines (n : Nat) : Confines k (drop n) := by
  apply Ensures.read
  intro s hs
  apply Ensures.ite
  · exact .throw_bind fun _ h => h
  · exact .set (hs.sublist (List.drop_sublist n s))

lemma popMany_confines (n : Nat) : Confines k (popMany n) := by
  induction n with
  | zero => exact .skip _
  | succ n ih => exact pop_yields.confines.bind fun _ => ih.bind fun _ => .skip _

end Stack

namespace Evaluator

open ScriptNumber

variable (c : Evaluator)

def maxItem : Nat := max c.limits.maxElementSize 32

/-- No item is too long, and as many operations are counted as the limit allows, or as `ops` at most. -/
structure Bounded (ops : Nat) (m : Machine) : Prop where
  items : m.stack.Within c.maxItem
  opCount : m.opCount ≤ max c.limits.maxOps ops

/-- A bounded machine stays bounded; where `x` fails, its items do. -/
def Respects {α : Type} (ops : Nat) (x : EvalM α) : Prop :=
  Ensures (c.Bounded ops) x (fun _ => c.Bounded ops) fun m => m.stack.Within c.maxItem

variable {c} {α : Type} {ops : Nat}

lemma respects_throw (e : Stop) : c.Respects ops (throw e : EvalM α) := .throw fun _ hm => hm.items

lemma respects_throw_bind (e : Stop) (f : α → EvalM Unit) : c.Respects ops (throw e >>= f) :=
  .throw_bind fun _ hm => hm.items

lemma respects_modify {f : Machine → Machine} (hs : ∀ m, (f m).stack = m.stack)
    (ho : ∀ m, (f m).opCount = m.opCount) : c.Respects ops (modify f) :=
  .modify fun m hm => ⟨(hs m).symm ▸ hm.items, (ho m).symm ▸ hm.opCount⟩

lemma respects_ofExcept (x : Except Stop α) : c.Respects ops (ofExcept x) :=
  .ofExcept (fun _ _ hm => hm) fun _ hm => hm.items

lemma respects_discard {x : EvalM α} (hx : c.Respects ops x) : c.Respects ops (discard x) :=
  Ensures.discard (Q := fun _ => c.Bounded ops) hx

lemma respects_onStack {x : StackM α} (hx : Stack.Confines c.maxItem x) : c.Respects ops (onStack x) := by
  intro m hm
  have hs := hx m.stack hm.items
  rw [onStack]
  cases hr : x m.stack with
  | ok a s =>
    rw [hr] at hs
    exact ⟨hs, hm.opCount⟩
  | error e s =>
    rw [hr] at hs
    exact hs

lemma le_maxItem {k : Nat} (h : k ≤ 32) : k ≤ c.maxItem := Nat.le_trans h (Nat.le_max_right _ _)

lemma pop_respects : c.Respects ops (onStack Stack.pop) := respects_onStack Stack.pop_yields.confines

lemma pushNumber_respects {v : Int} (hv : Fits v) : c.Respects ops (onStack (Stack.pushNumber v)) := by
  apply respects_onStack
  exact Stack.push_confines (le_maxItem (Nat.le_trans (length_encode_le_of_fits hv) (by decide)))

lemma pushBool_respects (v : Bool) : c.Respects ops (onStack (Stack.pushBool v)) := by
  apply respects_onStack
  exact Stack.push_confines (le_maxItem (Nat.le_trans (length_ofBool_le v) (by decide)))

lemma countOps_respects (n : Nat) : c.Respects ops (c.countOps n) := by
  have hadd : Ensures (c.Bounded ops) (modify fun m => { m with opCount := m.opCount + n } : EvalM Unit)
      (fun _ m => m.stack.Within c.maxItem) (fun m => m.stack.Within c.maxItem) :=
    .modify fun _ hm => hm.items
  apply hadd.bind
  intro _
  apply Ensures.get_bind
  intro m hm
  apply Ensures.ite_of
  · exact fun _ => .throw fun _ h => h ▸ hm
  · exact fun ho => .pure fun _ h => h ▸ ⟨hm, Nat.le_trans (Nat.not_lt.mp ho) (Nat.le_max_left _ _)⟩

lemma popNumber_respects : c.Respects ops c.popNumber := respects_onStack (Stack.popNumber_confines _)

lemma pushResult_respects (v : Int) : c.Respects ops (pushResult v) :=
  .ite_of pushNumber_respects fun _ => respects_throw _

lemma popCondition_respects : c.Respects ops popCondition := by
  apply pop_respects.bind
  intro b
  match b with
  | [] => exact .skip _
  | [x] => exact .ite (.skip _) (respects_throw _)
  | _ :: _ :: _ => exact respects_throw _

lemma openBranch_respects (negate : Bool) : c.Respects ops (openBranch negate) := by
  have hopen (x : Condition) :
      c.Respects ops (modify fun m => { m with conditions := x :: m.conditions }) :=
    respects_modify (fun _ => rfl) fun _ => rfl
  apply Ensures.read
  intro m _
  apply Ensures.ite
  · exact popCondition_respects.bind fun _ => (Ensures.skip _).bind hopen
  · exact (Ensures.skip _).bind hopen

lemma changeBranch_respects (o : Opcode) (f : Condition → List Condition) :
    c.Respects ops (changeBranch o f) := by
  apply Ensures.read
  intro m _
  match m.conditions with
  | [] => exact respects_throw _
  | x :: u => exact respects_modify (fun _ => rfl) fun _ => rfl

lemma requireTrue_respects (e : EvalError) : c.Respects ops (requireTrue e) :=
  (respects_onStack Stack.popBool_confines).bind fun _ =>
    .ite (respects_throw _) (.skip _)

lemma conclude_respects (verify : Bool) (e : EvalError) : c.Respects ops (conclude verify e) :=
  .ite (requireTrue_respects e) (.skip _)

lemma checkMultiSig_respects : c.Respects ops c.checkMultiSig := by
  have hmany (n : Nat) : c.Respects ops (onStack (Stack.popMany n)) :=
    respects_onStack (Stack.popMany_confines n)
  have hsignatures (keys : List Bytes) (m : Int) : c.Respects ops (do
      let signatures ← onStack (Stack.popMany m.toNat)
      discard (onStack Stack.pop)
      onStack (Stack.pushBool (← ofResult (matchSignatures c signatures keys)))) :=
    (hmany _).bind fun _ => (respects_discard pop_respects).bind fun _ =>
      (respects_ofExcept _).bind pushBool_respects
  apply popNumber_respects.bind
  intro n
  apply Ensures.ite
  · exact respects_throw_bind _ _
  · exact (countOps_respects _).bind fun _ => (hmany _).bind fun keys =>
      popNumber_respects.bind fun m => .ite (respects_throw_bind _ _) (hsignatures keys m)

variable [Crypto]

lemma perform_respects {i : Instruction} (hi : i.content.length ≤ c.limits.maxElementSize) {o : Operation}
    (ho : ∀ v, o = .pushNumber v → Fits v) : c.Respects ops (c.perform i o) := by
  have hpop : c.Respects ops c.popNumber := popNumber_respects
  cases o with
  | push => exact respects_onStack (Stack.push_confines (Nat.le_trans hi (Nat.le_max_left _ _)))
  | pushNumber v => exact pushNumber_respects (ho v rfl)
  | nop => exact .skip _
  | branch negate => exact openBranch_respects negate
  | otherwise | endBranch => exact changeBranch_respects _ _
  | verify => exact requireTrue_respects _
  | ret | reserved | unsupported => exact respects_throw _
  | dup n => exact respects_onStack (Stack.dup_confines n)
  | drop n => exact respects_onStack (Stack.drop_confines n)
  | nip => exact respects_discard (respects_onStack (Stack.nip_yields 1).confines)
  | copySecond => exact respects_onStack (Stack.peek_yields 1).push
  | swap => exact respects_onStack (Stack.nip_yields 1).push
  | depth => exact .read fun _ _ => pushNumber_respects (fits_ofLength _)
  | size =>
    apply respects_onStack
    apply (Stack.peek_yields 0).confines.bind
    intro b
    exact Stack.push_confines
      (le_maxItem (Nat.le_trans (length_encode_le_of_fits (fits_ofLength _)) (by decide)))
  | equal verify =>
    exact pop_respects.bind fun _ => pop_respects.bind fun _ =>
      (pushBool_respects _).bind fun _ => conclude_respects _ _
  | increment | decrement => exact hpop.bind fun _ => pushResult_respects _
  | add | subtract => exact hpop.bind fun _ => hpop.bind fun _ => pushResult_respects _
  | numEqual verify =>
    apply hpop.bind
    intro b
    apply hpop.bind
    intro a
    apply Ensures.bind _ fun _ => conclude_respects _ _
    apply pushNumber_respects
    split <;> decide
  | hash f =>
    apply respects_onStack
    apply Stack.pop_yields.confines.bind
    exact fun b => Stack.push_confines (le_maxItem (f.length_run_le b))
  | checkSig verify =>
    exact pop_respects.bind fun _ => pop_respects.bind fun _ => (respects_ofExcept _).bind fun _ =>
      (pushBool_respects _).bind fun _ => conclude_respects _ _
  | checkMultiSig verify => exact checkMultiSig_respects.bind fun _ => conclude_respects _ _

lemma runOne_respects (i : Instruction) (rest : List Instruction) : c.Respects ops (c.runOne i rest) := by
  have hprogram : c.Respects ops (modify fun m => { m with program := rest }) :=
    respects_modify (fun _ => rfl) fun _ => rfl
  have hcount : c.Respects ops (c.countInstruction i) := .ite (countOps_respects 1) (.skip _)
  have hrecord : c.Respects ops (record i rest) := respects_modify (fun _ => rfl) fun _ => rfl
  have hdepth : c.Respects ops c.checkDepth :=
    .read fun _ _ => .ite (respects_throw _) (.skip _)
  apply hprogram.bind
  intro _
  apply hcount.bind
  intro _
  by_cases hi : c.limits.maxElementSize < i.content.length
  · rw [checkElement, if_pos hi]
    exact respects_throw_bind _ _
  · have hrunning : c.Respects ops (c.performRunning i rest) := by
      apply Ensures.read
      intro _ _
      apply Ensures.ite _ (.skip _)
      exact (perform_respects (Nat.not_lt.mp hi) fun _ => Opcode.fits_of_pushNumber).bind fun _ => hrecord
    rw [checkElement, if_neg hi, pure_bind]
    exact hrunning.bind fun _ => hdepth

end Evaluator

end BitcoinTx
