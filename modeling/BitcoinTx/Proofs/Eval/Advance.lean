import BitcoinTx.Proofs.Eval.Local

/-! Running a program step by step: the prefixes of a run, and how a run is made of them. -/

namespace BitcoinTx.Evaluator

open Outcome

variable [Crypto] (c : Evaluator)

/-- The program of `m` begins with the instructions `l`, and the steps that consume them all succeed
and lead to `n`. -/
inductive Advances : List Instruction → Machine → Machine → Prop
  | nil (m : Machine) : Advances [] m m
  | cons {i : Instruction} {rest l : List Instruction} {m k n : Machine} {b : Bool}
      (hm : m.program = i :: rest) (hs : c.step m = .ok b k) (hl : Advances l k n) :
      Advances (i :: l) m n

variable {c} {i : Instruction} {rest l : List Instruction} {m k n : Machine} {b : Bool}

lemma step_cons (hm : m.program = i :: rest) :
    c.step m = (c.runOne i rest >>= fun _ => pure rest.isEmpty) m := by
  rw [step, EvalM.get_bind, hm]

lemma step_ok (hm : m.program = i :: rest) :
    c.step m = .ok b n ↔ c.runOne i rest m = .ok () n ∧ rest.isEmpty = b := by
  rw [step_cons hm, seq_ok]
  simp only [pure_ok]
  constructor
  · rintro ⟨_, h, hb, rfl⟩
    exact ⟨h, hb⟩
  · rintro ⟨h, hb⟩
    exact ⟨n, h, hb, rfl⟩

lemma step_error (hm : m.program = i :: rest) {e : Stop} :
    c.step m = .error e n ↔ c.runOne i rest m = .error e n := by
  rw [step_cons hm, bind_error]
  constructor
  · rintro (h | ⟨_, _, _, h⟩)
    · exact h
    · cases h
  · exact .inl

lemma runOne_program (h : c.runOne i rest m = .ok () n) : n.program = rest := by
  obtain ⟨-, -, h, -⟩ := runOne_ok.mp h
  split at h
  · obtain ⟨m', hp, hr⟩ := h
    obtain rfl := modify_ok.mp hr
    exact congrArg Machine.program ((perform_local c i _).ok hp)
  · rw [← h]
    rfl

namespace Advances

lemma invariant {P : Machine → Prop} (h : c.Advances l m n) (hm : P m)
    (hP : ∀ ⦃i rest k k'⦄, P k → c.runOne i rest k = .ok () k' → P k') : P n := by
  induction h with
  | nil m => exact hm
  | cons hp hs _ ih => exact ih (hP hm ((step_ok hp).mp hs).1)

end Advances

lemma runAll_cases (hm : m.program = l) :
    (∃ n, c.runAll l m = .ok () n ∧ c.Advances l m n) ∨
      ∃ e l' k n, c.runAll l m = .error e n ∧ c.Advances l' m k ∧ k.program ≠ [] ∧
        c.step k = .error e n := by
  -- a step that succeeds leaves the rest of the program in the machine, where the hypothesis applies
  induction l generalizing m with
  | nil => exact .inl ⟨m, rfl, .nil m⟩
  | cons i l ih =>
    cases hr : c.runOne i l m with
    | error e n =>
      refine .inr ⟨e, [], m, n, bind_error.mpr (.inl hr), .nil m, ?_, (step_error hm).mpr hr⟩
      rw [hm]
      exact List.cons_ne_nil i l
    | ok _ k =>
      have hs : c.step m = .ok l.isEmpty k := (step_ok hm).mpr ⟨hr, rfl⟩
      obtain ⟨n, hn, hl⟩ | ⟨e, l', k', n, hn, hl, hk, he⟩ := ih (runOne_program hr)
      · exact .inl ⟨n, bind_ok.mpr ⟨(), k, hr, hn⟩, .cons hm hs hl⟩
      · exact .inr ⟨e, i :: l', k', n, bind_error.mpr (.inr ⟨(), k, hr, hn⟩), .cons hm hs hl, hk, he⟩

lemma Advances.of_runAll (hm : m.program = l) (h : c.runAll l m = .ok () n) : c.Advances l m n := by
  obtain ⟨n', hn, hl⟩ | ⟨e, l', k, n', hn, -⟩ := runAll_cases (c := c) hm
  · rw [h] at hn
    cases hn
    exact hl
  · rw [h] at hn
    cases hn

end BitcoinTx.Evaluator
