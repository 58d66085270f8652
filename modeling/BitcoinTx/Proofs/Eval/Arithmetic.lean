import BitcoinTx.Eval.Run
import BitcoinTx.Proofs.Eval.Number
import BitcoinTx.Proofs.Eval.Outcome

/-! What the arithmetic opcodes compute, and when the result fits in 64 bits. -/

namespace BitcoinTx.Evaluator

open Outcome ScriptNumber

/-- What an opcode computes from the numbers on top of a stack, each read from at most `max` bytes, and what
it leaves of the stack. -/
inductive Computes (max : Nat) : Opcode → Stack → Int → Stack → Prop
  | increment {x : Bytes} {t : Stack} {a : Int} (ha : decode x max true = .ok a) :
    Computes max 0x8b (x :: t) (a + 1) t
  | decrement {x : Bytes} {t : Stack} {a : Int} (ha : decode x max true = .ok a) :
    Computes max 0x8c (x :: t) (a - 1) t
  | add {x y : Bytes} {t : Stack} {a b : Int} (ha : decode x max true = .ok a)
    (hb : decode y max true = .ok b) : Computes max 0x93 (y :: x :: t) (a + b) t
  | subtract {x y : Bytes} {t : Stack} {a b : Int} (ha : decode x max true = .ok a)
    (hb : decode y max true = .ok b) : Computes max 0x94 (y :: x :: t) (a - b) t

namespace Computes

variable {max : Nat} {o : Opcode} {s t : Stack} {r : Int}

lemma natAbs_operand_lt {x : Bytes} {a : Int} (h : decode x max true = .ok a) :
    2 * a.natAbs < 256 ^ min max 8 := by
  obtain ⟨hlen, rfl⟩ := decode_ok_iff.mp h
  exact length_encode_le_iff.mp hlen

lemma natAbs_le (h : Computes max o s r t) : r.natAbs ≤ 256 ^ min max 8 := by
  cases h with
  | increment ha | decrement ha =>
    have hlt := natAbs_operand_lt ha
    omega
  | add ha hb | subtract ha hb =>
    have hlt := natAbs_operand_lt ha
    have hlt' := natAbs_operand_lt hb
    omega

lemma fits_of_lt (h : Computes max o s r t) (hmax : max < 8) : Fits r := by
  have hle := h.natAbs_le
  have hpow : 256 ^ min max 8 ≤ 256 ^ 7 := Nat.pow_le_pow_right (by decide) (by omega)
  rw [Fits]
  omega

-- the least number that is read is one above the least number of 64 bits
lemma fits_of_decrement (h : Computes max 0x8c s r t) : Fits r := by
  cases h with
  | decrement ha =>
    have hlt := natAbs_operand_lt ha
    have hpow : 256 ^ min max 8 ≤ 256 ^ 8 := Nat.pow_le_pow_right (by decide) (Nat.min_le_right max 8)
    rw [Fits]
    omega

end Computes

section

variable {c : Evaluator} {m : Machine} {x : Bytes} {t : Stack} {v : Int}

lemma popNumber_bind {f : Int → EvalM Unit} (hs : m.stack = x :: t)
    (hx : decode x c.limits.maxNumberSize true = .ok v) :
    (c.popNumber >>= f) m = f v { m with stack := t } := by
  have hpop : c.popNumber m = .ok v { m with stack := t } := by
    rw [popNumber, onStack_ok]
    refine ⟨t, ?_, rfl⟩
    rw [Stack.popNumber, bind_ok]
    exact ⟨x, t, Stack.pop_ok.mpr hs, by rw [hx]; rfl⟩
  change EStateM.bind c.popNumber f m = _
  rw [EStateM.bind, hpop]

lemma pushResult_eq (v : Int) (m : Machine) : pushResult v m =
    if Fits v then .ok () { m with stack := encode v :: m.stack } else .error .panic m := by
  rw [pushResult]
  split <;> rfl

end

section

variable [Crypto] {c : Evaluator} {i : Instruction} {m : Machine} {r : Int} {t : Stack}

lemma Computes.perform_eq {o : Opcode} (h : Computes c.limits.maxNumberSize o m.stack r t) :
    c.perform i o.operation m = pushResult r { m with stack := t } := by
  generalize hs : m.stack = s at h
  cases h with
  | increment ha =>
    change c.perform i .increment m = _
    rw [perform, popNumber_bind hs ha]
  | decrement ha =>
    change c.perform i .decrement m = _
    rw [perform, popNumber_bind hs ha]
  | add ha hb =>
    change c.perform i .add m = _
    rw [perform, popNumber_bind hs hb, popNumber_bind rfl ha]
  | subtract ha hb =>
    change c.perform i .subtract m = _
    rw [perform, popNumber_bind hs hb, popNumber_bind rfl ha]

/-- A result is pushed in its minimal form if it fits in 64 bits; if not, the program panics. Numbers of seven
bytes have no other results than such as fit; of eight bytes, the decrement alone never leaves the range. -/
theorem perform_arithmetic (h : Computes c.limits.maxNumberSize i.opcode m.stack r t) :
    c.perform i i.opcode.operation m =
        (if Fits r then .ok () { m with stack := encode r :: t }
        else .error .panic { m with stack := t }) ∧
      isMinimal (encode r) = true ∧ value (encode r) = r ∧
      r.natAbs ≤ 256 ^ min c.limits.maxNumberSize 8 ∧
      (c.limits.maxNumberSize < 8 ∨ i.opcode = 0x8c → Fits r) := by
  refine ⟨h.perform_eq.trans (pushResult_eq _ _), isMinimal_encode r, value_encode r, h.natAbs_le, ?_⟩
  rintro (hmax | ho)
  · exact h.fits_of_lt hmax
  · rw [ho] at h
    exact h.fits_of_decrement

end

def wideEvaluator : Evaluator where
  limits := { maxNumberSize := 8 }

theorem perform_arithmetic_sum :
    let m : Machine :=
      { stack := List.replicate 2 [0xff, 0xff, 0xff, 0xff, 0xff, 0xff, 0xff, 0x3f], opCount := 1 }
    Computes 8 0x93 m.stack 0x7ffffffffffffffe [] ∧
      @perform Crypto.bitcoin wideEvaluator (.op 0x93) (Opcode.operation 0x93) m =
        .ok () { m with stack := [encode 0x7ffffffffffffffe] } := by
  intro m
  have ha : decode [0xff, 0xff, 0xff, 0xff, 0xff, 0xff, 0xff, 0x3f] 8 true =
      .ok 0x3fffffffffffffff := rfl
  have hsum : Computes 8 0x93 m.stack 0x7ffffffffffffffe [] := .add ha ha
  have hadd := (@perform_arithmetic Crypto.bitcoin wideEvaluator (.op 0x93) m _ _ hsum).1
  exact ⟨hsum, hadd.trans (if_pos (by decide))⟩

set_option maxRecDepth 3000 in
/-- One more than the greatest number of eight bytes. -/
theorem increment_overflows :
    Computes wideEvaluator.limits.maxNumberSize 0x8b
        [[0xff, 0xff, 0xff, 0xff, 0xff, 0xff, 0xff, 0x7f]] 0x8000000000000000 [] ∧
      ¬ Fits 0x8000000000000000 ∧
      @execute Crypto.bitcoin wideEvaluator
          ⟨[0x08, 0xff, 0xff, 0xff, 0xff, 0xff, 0xff, 0xff, 0x7f, 0x8b]⟩ {} =
        .error .panic { opCount := 1, stepCount := 1 } := by
  have ha : decode [0xff, 0xff, 0xff, 0xff, 0xff, 0xff, 0xff, 0x7f] 8 true =
      .ok 0x7fffffffffffffff := rfl
  exact ⟨.increment ha, by decide, by with_unfolding_all rfl⟩

end BitcoinTx.Evaluator
