import BitcoinTx.Proofs.Eval.Pushing
import BitcoinTx.Proofs.Eval.Verify
import BitcoinTx.Proofs.Script.PushForms
import BitcoinTx.Template

/-! A script that pushes items, each in its shortest form: it parses to an instruction for each item, and
running it leaves the items on the stack. -/

namespace BitcoinTx

open Instruction Outcome

namespace Evaluator

variable [Crypto] {c : Evaluator} {l : List Instruction} {u : Script} {m : Machine} {s t : Stack} {n : Nat}

lemma run_state_iff (hc : m.conditions = []) :
    (∃ m', c.run l false m = .ok () m' ∧ m'.state = ⟨t, [], n⟩) ↔
      c.Runs l ⟨m.stack, [], 0⟩ ⟨t, [], n⟩ := by
  have hs : Machine.state { m with program := l, opCount := 0 } = ⟨m.stack, [], 0⟩ := by
    simp [Machine.state, hc]
  constructor
  · rintro ⟨m', hm, ht⟩
    rw [← hs, ← ht]
    exact .of_runAll (run_ok.mp hm).1
  · intro h
    rw [← hs] at h
    obtain ⟨m', hm, ht⟩ := h.runAll
    exact ⟨m', run_ok.mpr ⟨hm, congrArg EvalState.conditions ht, by simp⟩, ht⟩

lemma execute_reset_iff : (∃ m', c.execute u m.reset = .ok () m' ∧ m'.state = ⟨t, [], n⟩) ↔
    u.size ≤ c.limits.maxScriptSize ∧
      ∃ l, u.instructions = .ok l ∧ c.Runs l ⟨[], [], 0⟩ ⟨t, [], n⟩ := by
  simp only [execute, checkSize_bind_ok, parse_bind_ok]
  constructor
  · rintro ⟨m', ⟨hu, l, hl, h⟩, ht⟩
    exact ⟨hu, l, hl, (run_state_iff rfl).mp ⟨m', h, ht⟩⟩
  · rintro ⟨hu, l, hl, h⟩
    obtain ⟨m', h, ht⟩ := (@run_state_iff _ c l m.reset t n rfl).mpr h
    exact ⟨m', ⟨hu, l, hl, h⟩, ht⟩

end Evaluator

namespace Script

variable [Crypto] {w : List Bytes}

lemma execute_pushes_iff (hw : ∀ x ∈ w, x.length < 2 ^ 32) {c : Evaluator} {m : Machine} :
    (∃ m', c.execute ⟨encodeAll (w.map pushing)⟩ m.reset = .ok () m' ∧
      m'.state = ⟨.ofItems w, [], 0⟩) ↔
        size ⟨encodeAll (w.map pushing)⟩ ≤ c.limits.maxScriptSize ∧
          (∀ x ∈ w, x.length ≤ c.limits.maxElementSize) ∧ w.length ≤ c.limits.maxStackSize := by
  have hpush : ∀ i ∈ w.map pushing, i.IsPush :=
    List.forall_mem_map.mpr fun x hx => isPush_pushing (hw x hx)
  have hstack : (w.map pushing ≠ [] → ([] : Stack).length + (w.map pushing).length ≤ c.limits.maxStackSize) ↔
      w.length ≤ c.limits.maxStackSize := by
    cases w <;> simp
  simp only [Evaluator.execute_reset_iff, instructions_pushing hw, Except.ok.injEq, exists_eq_left',
    Evaluator.runs_pushes hpush, hstack, List.forall_mem_map, content_pushing, map_item_pushing hw,
    List.append_nil, Stack.ofItems, and_true]

/-- The items of a witness are pushed by an instruction each, the shortest there is unless there is nothing to
push, and a run that starts afresh brings them back when the limits let them pass, and only then. -/
theorem ofWitness_replays (hw : ∀ x ∈ w, x.length < 2 ^ 32) :
    ∃ u l, ofWitness w = .ok u ∧ w.foldlM pushData .empty = .ok u ∧ u.isPushOnly = true ∧
      u.instructions = .ok l ∧
      List.Forall₂ (fun x i => i.content = x ∧ (x ≠ [] → i.Shortest x)) w l ∧
      ∀ (c : Evaluator) (m : Machine),
        (∃ m', c.execute u m.reset = .ok () m' ∧ m'.stack.items = w ∧ m'.conditions = [] ∧
          m'.opCount = 0) ↔
          u.size ≤ c.limits.maxScriptSize ∧ (∀ x ∈ w, x.length ≤ c.limits.maxElementSize) ∧
            w.length ≤ c.limits.maxStackSize := by
  have hu : empty.pushAll w = .ok ⟨encodeAll (w.map pushing)⟩ := pushAll_ok_iff.mpr ⟨hw, rfl⟩
  refine ⟨_, w.map pushing, hu, hu, ?_, instructions_pushing hw, ?_, fun c m => ?_⟩
  · rw [isPushOnly, instructions_pushing hw]
    exact List.all_eq_true.mpr (List.forall_mem_map.mpr fun x hx =>
      decide_eq_true (isPush_pushing (hw x hx)))
  · rw [List.forall₂_map_right_iff, List.forall₂_same]
    exact fun x hx => ⟨content_pushing x, fun h₀ => shortest_pushing h₀ (hw x hx)⟩
  · have hstate (m' : Machine) : m'.state = ⟨.ofItems w, [], 0⟩ ↔
        m'.stack.items = w ∧ m'.conditions = [] ∧ m'.opCount = 0 := by
      rw [Machine.state, EvalState.mk.injEq, Stack.items, Stack.ofItems, List.reverse_eq_iff]
    simp only [← hstate]
    exact execute_pushes_iff hw

omit [Crypto] in
/-- An empty item, one that an opcode would push without data, and one that needs its length in front. -/
theorem ofWitness_replays_threeForms :
    let w : List Bytes := [[], [0x01], List.replicate 80 0x02]
    let u : Script := ⟨[0x00, 0x01, 0x01, 0x4c, 0x50] ++ List.replicate 80 0x02⟩
    (∀ x ∈ w, x.length < 2 ^ 32) ∧ ofWitness w = .ok u ∧ u.isPushOnly = true ∧
      ∃ m, @Evaluator.execute Crypto.bitcoin {} u {} = .ok () m ∧ m.stack.items = w ∧ m.opCount = 0 := by
  intro w u
  have hw : ∀ x ∈ w, x.length < 2 ^ 32 := by decide
  obtain ⟨u', l, hu, -, hpush, -, -, hrun⟩ := @ofWitness_replays Crypto.bitcoin w hw
  have hbytes : ofWitness w = .ok u := by decide
  obtain rfl := Except.ok.inj (hu.symm.trans hbytes)
  obtain ⟨m, hm, hs, -, hn⟩ := (hrun {} {}).mpr (by decide)
  exact ⟨hw, hu, hpush, m, hm, hs, hn⟩

end Script

end BitcoinTx
