import BitcoinTx.Proofs.Eval.Runs
import BitcoinTx.Proofs.Script.Codec

/-! When the verification of an unlocking script against a locking script succeeds. -/

namespace BitcoinTx.Evaluator

open Outcome

section

variable [Crypto] {c : Evaluator} {u l : Script} {m m' : Machine}

omit [Crypto] in
lemma checkSize_bind_ok {α : Type} {b : α} {f : Unit → EvalM α} :
    (c.checkSize u >>= f) m = .ok b m' ↔ u.size ≤ c.limits.maxScriptSize ∧ f () m = .ok b m' := by
  rw [seq_ok]
  simp [checkSize, unless_ok, pure_ok, and_assoc]

omit [Crypto] in
lemma parse_bind_ok {α : Type} {b : α} {f : List Instruction → EvalM α} :
    (parse u >>= f) m = .ok b m' ↔ ∃ is, u.instructions = .ok is ∧ f is m = .ok b m' := by
  rw [parse, ofResult_bind_ok]
  simp only [mapError_ok]

lemma run_bind_ok {α : Type} {b : α} {is : List Instruction} {final : Bool}
    {f : Unit → EvalM α} : (c.run is final >>= f) m = .ok b m' ↔
      ∃ n, c.run is final m = .ok () n ∧ f () n = .ok b m' := seq_ok

/-- The stack's top item is a script that runs on the rest of the stack and ends with a true item. -/
def RedeemHolds (c : Evaluator) (s : Stack) : Prop :=
  ∃ r t t', s = r :: t ∧ r.length ≤ c.limits.maxScriptSize ∧ c.Takes ⟨r⟩ t t' ∧ t'.TopTrue

lemma runRedeem_ok_iff {s : Stack} : (∃ m', c.runRedeem s m = .ok () m') ↔ c.RedeemHolds s := by
  rw [RedeemHolds]
  simp only [runRedeem, modify_bind_ok, pop_bind_ok, checkSize_bind_ok, parse_bind_ok]
  constructor
  · rintro ⟨m', r, t, hs, hr, is, hi, h⟩
    obtain ⟨h, ht⟩ := (run_ok_iff rfl).mp ⟨m', h, rfl⟩
    exact ⟨r, t, m'.stack, hs, hr, ⟨is, hi, h⟩, ht rfl⟩
  · rintro ⟨r, t, t', rfl, hr, ⟨is, hi, h⟩, ht⟩
    obtain ⟨m', hm, -⟩ := (run_ok_iff (m := { m.reset with stack := t }) rfl).mpr ⟨h, fun _ => ht⟩
    exact ⟨m', r, t, rfl, hr, is, hi, hm⟩

lemma verify_ok {a : Unit} : c.verify u l m = .ok a m' ↔
    u.size ≤ c.limits.maxScriptSize ∧ l.size ≤ c.limits.maxScriptSize ∧
      ∃ first second m₁ m₂, u.instructions = .ok first ∧ l.instructions = .ok second ∧
        c.run first false m.reset = .ok () m₁ ∧
        c.run (first ++ second) true m₁.reset = .ok () m₂ ∧
        if l.isP2sh = false ∧ m₂.stack.length ≤ 1 then m₂ = m'
        else (l.isP2sh = true → u.isPushOnly = true) ∧ c.runRedeem m₁.stack m₂ = .ok () m' := by
  have hlast (s : Stack) (n : Machine) :
      (if (!l.isP2sh && decide (n.stack.length ≤ 1)) = true then pure ()
        else if (l.isP2sh && !u.isPushOnly) = true then
          (fail .notPushOnly : EvalM Unit) >>= fun _ => c.runRedeem s
        else c.runRedeem s) n = .ok a m' ↔
      if l.isP2sh = false ∧ n.stack.length ≤ 1 then n = m'
        else (l.isP2sh = true → u.isPushOnly = true) ∧ c.runRedeem s n = .ok () m' := by
    by_cases hn : l.isP2sh = false ∧ n.stack.length ≤ 1
    · simp [hn.1, hn.2, pure_ok]
    · rw [if_neg hn, if_neg (by simpa using hn), unless_bind_ok]
      simp
  simp only [verify, checkSize_bind_ok, modify_bind_ok, parse_bind_ok, get_bind_ok, run_bind_ok, hlast]
  constructor
  · rintro ⟨hu, hl, first, hf, m₁, h₁, first', hf', second, hs, m₂, h₂, h⟩
    obtain rfl : first = first' := Except.ok.inj (hf.symm.trans hf')
    exact ⟨hu, hl, first, second, m₁, m₂, hf, hs, h₁, h₂, h⟩
  · rintro ⟨hu, hl, first, second, m₁, m₂, hf, hs, h₁, h₂, h⟩
    exact ⟨hu, hl, first, hf, m₁, h₁, first, hf, second, hs, m₂, h₂, h⟩

lemma verify_ok_iff : (∃ m', c.verify u l m = .ok () m') ↔
    u.size ≤ c.limits.maxScriptSize ∧ l.size ≤ c.limits.maxScriptSize ∧
      ∃ first second s t, u.instructions = .ok first ∧ l.instructions = .ok second ∧
        c.Completes first [] s ∧ c.Completes (first ++ second) [] t ∧ t.TopTrue ∧
        (l.isP2sh = false ∧ t.length ≤ 1 ∨
          (l.isP2sh = true → u.isPushOnly = true) ∧ c.RedeemHolds s) := by
  simp only [verify_ok]
  constructor
  · rintro ⟨m', hu, hl, first, second, m₁, m₂, hf, hs, h₁, h₂, h⟩
    obtain ⟨h₁, -⟩ := (run_ok_iff rfl).mp ⟨m₁, h₁, rfl⟩
    obtain ⟨h₂, ht⟩ := (run_ok_iff rfl).mp ⟨m₂, h₂, rfl⟩
    refine ⟨hu, hl, first, second, _, _, hf, hs, h₁, h₂, ht rfl, ?_⟩
    split at h
    · next hn => exact .inl hn
    · exact .inr ⟨h.1, runRedeem_ok_iff.mp ⟨m', h.2⟩⟩
  · rintro ⟨hu, hl, first, second, s, t, hf, hs, h₁, h₂, ht, h⟩
    obtain ⟨m₁, hm₁, rfl⟩ : ∃ n, c.run first false m.reset = .ok () n ∧ n.stack = s :=
      (run_ok_iff rfl).mpr ⟨h₁, by simp⟩
    obtain ⟨m₂, hm₂, rfl⟩ := (run_ok_iff (m := m₁.reset) rfl).mpr ⟨h₂, fun _ => ht⟩
    by_cases hn : l.isP2sh = false ∧ m₂.stack.length ≤ 1
    · exact ⟨m₂, hu, hl, first, second, m₁, m₂, hf, hs, hm₁, hm₂, by rw [if_pos hn]⟩
    · obtain ⟨hp, h⟩ := h.resolve_left hn
      obtain ⟨m', h⟩ := runRedeem_ok_iff.mpr h
      exact ⟨m', hu, hl, first, second, m₁, m₂, hf, hs, hm₁, hm₂, by rw [if_neg hn]; exact ⟨hp, h⟩⟩

/-- A verification that succeeds runs the unlocking script on its own, and the locking script as if it
had been started on the stack that the unlocking script leaves: running both as one program, in which
the bytes of neither absorb those of the other, ends with the same stack. -/
theorem verify_in_sequence (h : c.verify u l m = .ok () m') :
    ∃ first second m₁ m₂, u.instructions = .ok first ∧ l.instructions = .ok second ∧
      Script.instructions ⟨u.bytes ++ l.bytes⟩ = .ok (first ++ second) ∧
      c.run first false m.reset = .ok () m₁ ∧ c.run (first ++ second) true m₁.reset = .ok () m₂ ∧
      (l.isP2sh = false → m₂.stack.length ≤ 1 → m₂ = m') ∧
      c.Completes first [] m₁.stack ∧ c.Completes second m₁.stack m₂.stack ∧ m₂.stack.TopTrue := by
  obtain ⟨-, -, first, second, m₁, m₂, hf, hs, h₁, h₂, hlast⟩ := verify_ok.mp h
  obtain ⟨hfirst, -⟩ := (run_ok_iff rfl).mp ⟨m₁, h₁, rfl⟩
  obtain ⟨hboth, ht⟩ := (run_ok_iff rfl).mp ⟨m₂, h₂, rfl⟩
  refine ⟨first, second, m₁, m₂, hf, hs, Script.instructions_append hf hs, h₁, h₂, ?_, hfirst,
    hboth.of_append hfirst, ht rfl⟩
  intro hsh hlen
  rwa [if_pos ⟨hsh, hlen⟩] at hlast

end

/-- The script `OP_IF OP_2 OP_ENDIF` runs on the condition that `OP_1` leaves. -/
theorem verify_in_sequence_branch :
    @verify Crypto.bitcoin {} ⟨[0x51]⟩ ⟨[0x63, 0x52, 0x68]⟩ {} =
      .ok () { stack := [[2]], opCount := 2, stepCount := 5 } ∧
    ∃ first second s t, Script.instructions ⟨[0x51]⟩ = .ok first ∧
      Script.instructions ⟨[0x63, 0x52, 0x68]⟩ = .ok second ∧
      @Completes Crypto.bitcoin {} first [] s ∧ @Completes Crypto.bitcoin {} second s t ∧
      t.TopTrue := by
  have h : @verify Crypto.bitcoin {} ⟨[0x51]⟩ ⟨[0x63, 0x52, 0x68]⟩ {} =
      .ok () { stack := [[2]], opCount := 2, stepCount := 5 } := by with_unfolding_all rfl
  obtain ⟨first, second, m₁, m₂, hf, hs, -, -, -, -, h₁, h₂, ht⟩ :=
    @verify_in_sequence Crypto.bitcoin _ _ _ _ _ h
  exact ⟨h, first, second, m₁.stack, m₂.stack, hf, hs, h₁, h₂, ht⟩

end BitcoinTx.Evaluator
