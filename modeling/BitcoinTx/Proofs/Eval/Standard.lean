import BitcoinTx.Proofs.Eval.Pushing
import BitcoinTx.Proofs.Eval.Verify
import BitcoinTx.Proofs.Script.Standard

/-! Running the standard locking scripts. -/

namespace BitcoinTx.Evaluator

open Outcome Instruction

variable [Crypto] {c : Evaluator} {h : Hash160} {s t : Stack} {x y : Bytes} {n : Nat}
variable {l : List Instruction} {b : EvalState}

lemma runs_dup : c.Runs (op .dup :: l) ⟨s, [], n⟩ b ↔ n + 1 ≤ c.limits.maxOps ∧
    ∃ x t, s = x :: t ∧ t.length + 2 ≤ c.limits.maxStackSize ∧
      c.Runs l ⟨x :: x :: t, [], n + 1⟩ b := by
  rw [runs_command (by decide)]
  simp only [performs_dup (show (op .dup).opcode.operation = .dup 1 from rfl)]
  constructor
  · rintro ⟨hn, _, ⟨x, t, rfl, rfl⟩, hs, hl⟩
    exact ⟨hn, x, t, rfl, hs, hl⟩
  · rintro ⟨hn, x, t, rfl, hs, hl⟩
    exact ⟨hn, _, ⟨x, t, rfl, rfl⟩, hs, hl⟩

lemma runs_hash160 : c.Runs (op .hash160 :: l) ⟨x :: t, [], n⟩ b ↔
    n + 1 ≤ c.limits.maxOps ∧ t.length + 1 ≤ c.limits.maxStackSize ∧
      c.Runs l ⟨(hash160 x).val :: t, [], n + 1⟩ b := by
  rw [runs_command (by decide)]
  simp only [performs_hash (show (op .hash160).opcode.operation = .hash .hash160 from rfl),
    List.cons.injEq]
  constructor
  · rintro ⟨hn, _, ⟨_, _, ⟨rfl, rfl⟩, rfl⟩, hs, hl⟩
    exact ⟨hn, hs, hl⟩
  · rintro ⟨hn, hs, hl⟩
    exact ⟨hn, _, ⟨x, t, ⟨rfl, rfl⟩, rfl⟩, hs, hl⟩

lemma runs_data20 : c.Runs (⟨.data20, some h.val⟩ :: l) ⟨s, [], n⟩ b ↔
    20 ≤ c.limits.maxElementSize ∧ s.length + 1 ≤ c.limits.maxStackSize ∧
      c.Runs l ⟨h.val :: s, [], n⟩ b := by
  have hp : IsPush ⟨.data20, some h.val⟩ := (by decide : Opcode.IsPush .data20)
  rw [runs_cons]
  simp only [runs_push hp, content, Option.getD_some, h.property]
  constructor
  · rintro ⟨_, ⟨he, hs, rfl⟩, hl⟩
    exact ⟨he, hs, hl⟩
  · rintro ⟨he, hs, hl⟩
    exact ⟨_, ⟨he, hs, rfl⟩, hl⟩

lemma runs_equal : c.Runs (op .equal :: l) ⟨x :: y :: t, [], n⟩ b ↔
    n + 1 ≤ c.limits.maxOps ∧ t.length + 1 ≤ c.limits.maxStackSize ∧
      c.Runs l ⟨ScriptNumber.ofBool (x = y) :: t, [], n + 1⟩ b := by
  rw [runs_command (by decide)]
  simp only [performs_equal (show (op .equal).opcode.operation = .equal false from rfl),
    List.cons.injEq]
  constructor
  · rintro ⟨hn, _, ⟨_, _, _, ⟨rfl, rfl, rfl⟩, -, rfl⟩, hs, hl⟩
    exact ⟨hn, hs, hl⟩
  · rintro ⟨hn, hs, hl⟩
    exact ⟨hn, _, ⟨x, y, t, ⟨rfl, rfl, rfl⟩, by simp, rfl⟩, hs, hl⟩

lemma runs_equalVerify : c.Runs (op .equalVerify :: l) ⟨x :: y :: t, [], n⟩ b ↔
    n + 1 ≤ c.limits.maxOps ∧ t.length ≤ c.limits.maxStackSize ∧ x = y ∧
      c.Runs l ⟨t, [], n + 1⟩ b := by
  rw [runs_command (by decide)]
  simp only [performs_equal (show (op .equalVerify).opcode.operation = .equal true from rfl),
    List.cons.injEq]
  constructor
  · rintro ⟨hn, _, ⟨_, _, _, ⟨rfl, rfl, rfl⟩, hxy, rfl⟩, hs, hl⟩
    exact ⟨hn, hs, hxy trivial, hl⟩
  · rintro ⟨hn, hs, hxy, hl⟩
    exact ⟨hn, _, ⟨x, y, t, ⟨rfl, rfl, rfl⟩, fun _ => hxy, rfl⟩, hs, hl⟩

lemma runs_checkSig : c.Runs (op .checkSig :: l) ⟨s, [], n⟩ b ↔ n + 1 ≤ c.limits.maxOps ∧
    ∃ key signature t v, s = key :: signature :: t ∧ t.length + 1 ≤ c.limits.maxStackSize ∧
      c.checkSignature signature key = .ok v ∧
      c.Runs l ⟨ScriptNumber.ofBool v :: t, [], n + 1⟩ b := by
  rw [runs_command (by decide)]
  simp only [performs_checkSig (show (op .checkSig).opcode.operation = .checkSig false from rfl)]
  constructor
  · rintro ⟨hn, _, ⟨key, signature, t, v, rfl, hv, -, rfl⟩, hs, hl⟩
    exact ⟨hn, key, signature, t, v, rfl, hs, hv, hl⟩
  · rintro ⟨hn, key, signature, t, v, rfl, hs, hv, hl⟩
    exact ⟨hn, _, ⟨key, signature, t, v, rfl, hv, by simp, rfl⟩, hs, hl⟩

lemma runs_p2sh : c.Runs (Script.p2shProgram h) ⟨x :: t, [], n⟩ b ↔
    n + 2 ≤ c.limits.maxOps ∧ 20 ≤ c.limits.maxElementSize ∧
      t.length + 2 ≤ c.limits.maxStackSize ∧
      ⟨ScriptNumber.ofBool (h = hash160 x) :: t, [], n + 2⟩ = b := by
  simp only [Script.p2shProgram, runs_hash160, runs_data20, runs_equal, runs_nil,
    List.length_cons, Subtype.ext_iff, Nat.add_assoc]
  constructor
  · rintro ⟨-, -, he, hs, hn, -, rfl⟩
    exact ⟨hn, he, hs, rfl⟩
  · rintro ⟨hn, he, hs, rfl⟩
    exact ⟨by omega, by omega, he, hs, hn, by omega, rfl⟩

lemma runs_p2pkh : c.Runs (Script.p2pkhProgram h) ⟨s, [], n⟩ b ↔
    n + 4 ≤ c.limits.maxOps ∧ 20 ≤ c.limits.maxElementSize ∧
      ∃ key signature t v, s = key :: signature :: t ∧ t.length + 4 ≤ c.limits.maxStackSize ∧
        h = hash160 key ∧ c.checkSignature signature key = .ok v ∧
        ⟨ScriptNumber.ofBool v :: t, [], n + 4⟩ = b := by
  simp only [Script.p2pkhProgram, runs_dup, runs_hash160, runs_data20, runs_equalVerify,
    runs_checkSig, runs_nil, List.length_cons, Subtype.ext_iff, Nat.add_assoc]
  constructor
  · rintro ⟨-, key, _, rfl, -, -, -, he, hs, -, -, hh, hn, _, signature, t, v, hst, -, hv, rfl⟩
    obtain ⟨rfl, rfl⟩ := List.cons.inj hst
    exact ⟨hn, he, key, signature, t, v, rfl, hs, hh, hv, rfl⟩
  · rintro ⟨hn, he, key, signature, t, v, rfl, hs, hh, hv, rfl⟩
    have hlen : (signature :: t).length = t.length + 1 := rfl
    exact ⟨by omega, key, _, rfl, by omega, by omega, by omega, he, by omega, by omega, by omega,
      hh, hn, key, signature, t, v, rfl, by omega, hv, rfl⟩

section

variable {u : Script} {m : Machine}

lemma verify_p2sh_of_runs {redeem : Bytes} {rest : Stack} (hu : u.size ≤ c.limits.maxScriptSize)
    (hsize : (Script.p2sh (hash160 redeem)).size ≤ c.limits.maxScriptSize)
    (hops : 2 ≤ c.limits.maxOps) (he : 20 ≤ c.limits.maxElementSize)
    (hl : u.instructions = .ok l) (hp : ∀ i ∈ l, i.IsPush)
    (hrun : c.Runs l ⟨[], [], 0⟩ ⟨redeem :: rest, [], 0⟩)
    (hdepth : rest.length + 2 ≤ c.limits.maxStackSize)
    (hr : redeem.length ≤ c.limits.maxScriptSize) (htakes : c.Takes ⟨redeem⟩ rest t)
    (ht : t.TopTrue) : ∃ m', c.verify u (.p2sh (hash160 redeem)) m = .ok () m' := by
  have hlast : c.Runs (Script.p2shProgram (hash160 redeem)) ⟨redeem :: rest, [], 0⟩
      ⟨ScriptNumber.ofBool true :: rest, [], 0 + 2⟩ :=
    runs_p2sh.mpr ⟨by omega, he, hdepth, by simp⟩
  refine verify_ok_iff.mpr ⟨hu, hsize, l, _, redeem :: rest, ScriptNumber.ofBool true :: rest, hl,
    Script.instructions_p2sh _, completes_iff.mpr ⟨0, hrun⟩,
    completes_append.mpr ⟨_, _, hrun, hlast⟩, Stack.topTrue_ofBool.mpr rfl,
    .inr ⟨fun _ => ?_, redeem, rest, t, rfl, hr, htakes, ht⟩⟩
  simpa [Script.isPushOnly, hl] using hp

lemma redeem_of_verify {m' : Machine} (hv : c.verify u (.p2sh h) m = .ok () m') :
    ∃ l, u.instructions = .ok l ∧ (∀ i ∈ l, i.IsPush) ∧
      ∃ redeem rest t, Stack.ofItems (l.map item) = redeem :: rest ∧ hash160 redeem = h ∧
        c.Takes ⟨redeem⟩ rest t ∧ t.TopTrue := by
  obtain ⟨-, -, l, second, s, t, hl, hsecond, h₁, h₂, ht, hlast⟩ := verify_ok_iff.mp ⟨m', hv⟩
  obtain rfl := Except.ok.inj ((Script.instructions_p2sh h).symm.trans hsecond)
  rw [Script.isP2sh_p2sh] at hlast
  obtain ⟨hpush, redeem, rest, t', rfl, -, htakes, ht'⟩ := hlast.resolve_left (by simp)
  have hpush : ∀ i ∈ l, i.IsPush := by simpa [Script.isPushOnly, hl] using hpush rfl
  obtain ⟨-, -, hitems⟩ := (completes_pushes hpush).mp h₁
  rw [List.append_nil] at hitems
  -- the script hash is checked by what the locking script does behind the pushes
  obtain ⟨n, hlock⟩ := completes_iff.mp (h₂.of_append h₁)
  obtain ⟨-, -, -, hend⟩ := runs_p2sh.mp hlock
  cases hend
  have hhash : hash160 redeem = h := (of_decide_eq_true (Stack.topTrue_ofBool.mp ht)).symm
  exact ⟨l, hl, hpush, redeem, rest, t', hitems, hhash, htakes, ht'⟩

/-- An unlocking script satisfies `p2sh h` exactly when it only pushes, and the last of the items that
it pushes has the hash `h` and is a script that ends with a true item when it runs on the others. -/
theorem verify_p2sh_iff :
    (∃ m', c.verify u (.p2sh h) m = .ok () m') ↔
      u.size ≤ c.limits.maxScriptSize ∧ (Script.p2sh h).size ≤ c.limits.maxScriptSize ∧
        2 ≤ c.limits.maxOps ∧ 20 ≤ c.limits.maxElementSize ∧
        ∃ l, u.instructions = .ok l ∧
          (∀ i ∈ l, i.IsPush ∧ i.item.length ≤ c.limits.maxElementSize) ∧
          ∃ redeem rest, Stack.ofItems (l.map item) = redeem :: rest ∧
            rest.length + 2 ≤ c.limits.maxStackSize ∧ hash160 redeem = h ∧
            redeem.length ≤ c.limits.maxScriptSize ∧
            ∃ t, c.Takes ⟨redeem⟩ rest t ∧ t.TopTrue := by
  have hitem {l : List Instruction} (hl : u.instructions = .ok l) (hp : ∀ i ∈ l, i.IsPush)
      (he : 20 ≤ c.limits.maxElementSize) {i : Instruction} (hi : i ∈ l) :
      i.item.length ≤ c.limits.maxElementSize ↔ i.content.length ≤ c.limits.maxElementSize :=
    length_item_le_iff (hp i hi) ((Script.instructions_ok_iff.mp hl).1 i hi) (by omega)
  constructor
  · intro hv
    obtain ⟨hu, hsize, l, second, s, t, hl, hsecond, h₁, h₂, ht, hlast⟩ := verify_ok_iff.mp hv
    obtain rfl := Except.ok.inj ((Script.instructions_p2sh h).symm.trans hsecond)
    rw [Script.isP2sh_p2sh] at hlast
    obtain ⟨hp, redeem, rest, t', rfl, hr, htakes, ht'⟩ := hlast.resolve_left (by simp)
    have hp : ∀ i ∈ l, i.IsPush := by simpa [Script.isPushOnly, hl] using hp rfl
    obtain ⟨hc, -, hs⟩ := (completes_pushes hp).mp h₁
    obtain ⟨b, n, hb, h₂⟩ := completes_append.mp h₂
    obtain ⟨-, -, rfl⟩ := (runs_pushes hp).mp hb
    rw [hs] at h₂
    obtain ⟨hops, he, hdepth, hend⟩ := runs_p2sh.mp h₂
    cases hend
    refine ⟨hu, hsize, by omega, he, l, hl, ?_, redeem, rest, ?_, hdepth, ?_, hr, t', htakes, ht'⟩
    · exact fun i hi => ⟨hp i hi, (hitem hl hp he hi).mpr (hc i hi)⟩
    · rwa [List.append_nil] at hs
    · exact (of_decide_eq_true (Stack.topTrue_ofBool.mp ht)).symm
  · rintro ⟨hu, hsize, hops, he, l, hl, hi, redeem, rest, hs, hdepth, rfl, hr, t', htakes, ht'⟩
    have hp i (h : i ∈ l) := (hi i h).1
    have hc i (h : i ∈ l) := (hitem hl hp he h).mp (hi i h).2
    have hlen : l.length = rest.length + 1 := by
      rw [← List.length_map (f := item), ← List.length_reverse]
      exact congrArg List.length hs
    have hrun : c.Runs l ⟨[], [], 0⟩ ⟨redeem :: rest, [], 0⟩ :=
      (runs_pushes hp).mpr ⟨hc, fun _ => by simp; omega, by rw [List.append_nil, ← hs]; rfl⟩
    exact verify_p2sh_of_runs hu hsize hops he hl hp hrun hdepth hr htakes ht'

end

section

variable {items : List Bytes} {m : Machine}

lemma runs_pushing (hc : c.limits = {}) (hlen : ∀ x ∈ items, x.length ≤ 520)
    (hcount : items.length ≤ 18) :
    Script.size ⟨encodeAll (items.map pushing)⟩ ≤ c.limits.maxScriptSize ∧
      Script.instructions ⟨encodeAll (items.map pushing)⟩ = .ok (items.map pushing) ∧
      (∀ i ∈ items.map pushing, i.IsPush) ∧
      c.Runs (items.map pushing) ⟨[], [], 0⟩ ⟨items.reverse, [], 0⟩ := by
  have hsmall x (hx : x ∈ items) : x.length < 2 ^ 32 := Nat.lt_of_le_of_lt (hlen x hx) (by decide)
  have hpush : ∀ i ∈ items.map pushing, i.IsPush :=
    List.forall_mem_map.mpr fun x hx => isPush_pushing (hsmall x hx)
  rw [hc]
  refine ⟨?_, Script.instructions_pushing hsmall, hpush, (runs_pushes hpush).mpr ⟨?_, fun _ => ?_, ?_⟩⟩
  · calc (encodeAll (items.map pushing)).length
      _ ≤ items.length * 525 := length_encodeAll_pushing hlen (by decide)
      _ ≤ 18 * 525 := Nat.mul_le_mul_right 525 hcount
      _ ≤ 10000 := by decide
  · rw [hc]
    exact List.forall_mem_map.mpr fun x hx => by simpa using hlen x hx
  · rw [hc, List.length_nil, List.length_map, Nat.zero_add]
    exact Nat.le_trans hcount (by decide)
  · rw [map_item_pushing hsmall, List.append_nil]

lemma verify_p2sh_pushing {redeem : Bytes} {rest : Stack} (hc : c.limits = {})
    (hlen : ∀ x ∈ items, x.length ≤ 520) (hcount : items.length ≤ 18)
    (hitems : items.reverse = redeem :: rest) (htakes : c.Takes ⟨redeem⟩ rest t) (ht : t.TopTrue) :
    ∃ m', c.verify ⟨encodeAll (items.map pushing)⟩ (.p2sh (hash160 redeem)) m = .ok () m' := by
  obtain ⟨hsize, hl, hp, hrun⟩ := runs_pushing hc hlen hcount
  have hredeem := hlen redeem (List.mem_reverse.mp (hitems ▸ List.mem_cons_self))
  have hrest : items.length = rest.length + 1 := by
    rw [← List.length_reverse, hitems, List.length_cons]
  rw [hitems] at hrun
  refine verify_p2sh_of_runs hsize ?_ (by rw [hc]; decide) (by rw [hc]; decide) hl hp hrun ?_ ?_
    htakes ht
  · rw [hc, Script.size_p2sh]
    decide
  · rw [hc]
    exact Nat.le_trans (by omega : rest.length + 2 ≤ 19) (by decide)
  · rw [hc]
    exact Nat.le_trans hredeem (by decide)

lemma redeem_of_verify_pushing {m' : Machine} (hsmall : ∀ x ∈ items, x.length < 2 ^ 32)
    (hv : c.verify ⟨encodeAll (items.map pushing)⟩ (.p2sh h) m = .ok () m') :
    ∃ redeem rest t, items.reverse = redeem :: rest ∧ hash160 redeem = h ∧
      c.Takes ⟨redeem⟩ rest t ∧ t.TopTrue := by
  obtain ⟨l, hl, -, redeem, rest, t, hitems, hhash, htakes, ht⟩ := redeem_of_verify hv
  obtain rfl := Except.ok.inj ((Script.instructions_pushing hsmall).symm.trans hl)
  rw [map_item_pushing hsmall] at hitems
  exact ⟨redeem, rest, t, hitems, hhash, htakes, ht⟩

lemma verify_p2pkh_pushing {signature key : Bytes} (hc : c.limits = {})
    (hsignature : signature.length ≤ 520) (hkey : key.length ≤ 520)
    (hv : c.checkSignature signature key = .ok true) :
    ∃ m', c.verify ⟨encodeAll ([signature, key].map pushing)⟩ (.p2pkh (hash160 key)) m =
      .ok () m' := by
  have hlen : ∀ x ∈ [signature, key], x.length ≤ 520 := by simp [hsignature, hkey]
  obtain ⟨hsize, hl, -, hrun⟩ := runs_pushing hc hlen (Nat.le_of_ble_eq_true rfl)
  have hlast : c.Runs (Script.p2pkhProgram (hash160 key)) ⟨[key, signature], [], 0⟩
      ⟨[ScriptNumber.ofBool true], [], 0 + 4⟩ := by
    refine runs_p2pkh.mpr ⟨?_, ?_, key, signature, [], true, rfl, ?_, rfl, hv, rfl⟩ <;> rw [hc] <;>
      decide
  refine verify_ok_iff.mpr ⟨hsize, ?_, _, _, _, _, hl, Script.instructions_p2pkh _,
    completes_iff.mpr ⟨0, hrun⟩, completes_append.mpr ⟨_, _, hrun, hlast⟩,
    Stack.topTrue_ofBool.mpr rfl, .inl ⟨Script.isP2sh_p2pkh _, by simp⟩⟩
  rw [hc, Script.size_p2pkh]
  decide

end

end BitcoinTx.Evaluator
