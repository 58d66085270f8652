import BitcoinTx.Proofs.Transaction.Verification

/-! Which witness stacks unlock a coin that pays to the hash of a key. -/

namespace BitcoinTx

open Instruction

namespace Evaluator

section

variable [Crypto] {c : Evaluator} {h : Hash160} {w : List Bytes} {s t : Stack} {m : Machine}

lemma completes_pushing_iff (hw : ∀ x ∈ w, x.length < 2 ^ 32) :
    c.Completes (w.map pushing) [] s ↔ (∀ x ∈ w, x.length ≤ c.limits.maxElementSize) ∧
      (w ≠ [] → w.length ≤ c.limits.maxStackSize) ∧ Stack.ofItems w = s := by
  rw [completes_pushes (List.forall_mem_map.mpr fun x hx => isPush_pushing (hw x hx)),
    List.forall_mem_map, map_item_pushing hw]
  simp [Stack.ofItems]

lemma completes_pushing_p2pkh_iff (hw : ∀ x ∈ w, x.length < 2 ^ 32) :
    c.Completes (w.map pushing ++ Script.p2pkhProgram h) [] t ∧ t.TopTrue ↔
      4 ≤ c.limits.maxOps ∧ 20 ≤ c.limits.maxElementSize ∧
        (∀ x ∈ w, x.length ≤ c.limits.maxElementSize) ∧
        ∃ rest signature key, w = rest ++ [signature, key] ∧
          rest.length + 4 ≤ c.limits.maxStackSize ∧ hash160 key = h ∧
          c.checkSignature signature key = .ok true ∧
          ScriptNumber.ofBool true :: Stack.ofItems rest = t := by
  have hpush : ∀ i ∈ w.map pushing, i.IsPush :=
    List.forall_mem_map.mpr fun x hx => isPush_pushing (hw x hx)
  rw [completes_append]
  simp only [runs_pushes hpush, List.forall_mem_map, content_pushing, map_item_pushing hw]
  constructor
  · rintro ⟨⟨_, n, ⟨he, -, rfl⟩, hlast⟩, ht⟩
    obtain ⟨hops, h₂₀, key, signature, rest, v, hs, hdepth, hh, hv, hend⟩ := runs_p2pkh.mp hlast
    cases hend
    obtain rfl := Stack.topTrue_ofBool.mp ht
    rw [List.append_nil, List.reverse_eq_iff] at hs
    refine ⟨by omega, h₂₀, he, rest.reverse, signature, key, by simp [hs], ?_, hh.symm, hv, ?_⟩
    · rwa [List.length_reverse]
    · rw [Stack.ofItems, List.reverse_reverse]
  · rintro ⟨hops, h₂₀, he, rest, signature, key, rfl, hdepth, rfl, hv, rfl⟩
    have hlast : c.Runs (Script.p2pkhProgram (hash160 key))
        ⟨(rest ++ [signature, key]).reverse ++ [], [], 0⟩
        ⟨ScriptNumber.ofBool true :: Stack.ofItems rest, [], 0 + 4⟩ :=
      runs_p2pkh.mpr ⟨by omega, h₂₀, key, signature, rest.reverse, true, by simp,
        by rwa [List.length_reverse], rfl, hv, rfl⟩
    refine ⟨⟨_, _, ⟨he, fun _ => ?_, rfl⟩, hlast⟩, Stack.topTrue_ofBool.mpr rfl⟩
    simp only [List.length_nil, List.length_map, List.length_append, List.length_cons]
    omega

lemma verify_p2pkh_ok_iff {u : Script} : (∃ m', c.verify u (.p2pkh h) m = .ok () m') ↔
    u.size ≤ c.limits.maxScriptSize ∧ (Script.p2pkh h).size ≤ c.limits.maxScriptSize ∧
      ∃ first s t, u.instructions = .ok first ∧ c.Completes first [] s ∧
        c.Completes (first ++ Script.p2pkhProgram h) [] t ∧ t.TopTrue ∧
        (t.length ≤ 1 ∨ c.RedeemHolds s) := by
  simp [verify_ok_iff, Script.instructions_p2pkh]

/-- A witness stack satisfies the hash of a key when it ends with a signature and this key, and has either
nothing below them or a key that is a script: with more than these two items, the key has to end with a
true item when it runs on all items below it. -/
theorem verify_ofWitness_p2pkh_iff :
    (∃ u m', Script.ofWitness w = .ok u ∧ c.verify u (.p2pkh h) m = .ok () m') ↔
      (∃ u, Script.ofWitness w = .ok u ∧ u.size ≤ c.limits.maxScriptSize) ∧
        (Script.p2pkh h).size ≤ c.limits.maxScriptSize ∧ 4 ≤ c.limits.maxOps ∧
        20 ≤ c.limits.maxElementSize ∧ (∀ x ∈ w, x.length ≤ c.limits.maxElementSize) ∧
        ∃ rest signature key, w = rest ++ [signature, key] ∧
          rest.length + 4 ≤ c.limits.maxStackSize ∧ hash160 key = h ∧
          c.checkSignature signature key = .ok true ∧
          (rest = [] ∨ key.length ≤ c.limits.maxScriptSize ∧
            ∃ t, c.Takes ⟨key⟩ (Stack.ofItems (rest ++ [signature])) t ∧ t.TopTrue) := by
  simp only [Script.ofWitness, Script.pushAll_ok_iff]
  constructor
  · rintro ⟨_, m', ⟨hw, rfl⟩, hv⟩
    obtain ⟨hu, hsize, first, s, t, hfirst, h₁, h₂, ht, hlast⟩ := verify_p2pkh_ok_iff.mp ⟨m', hv⟩
    obtain rfl := Except.ok.inj ((Script.instructions_pushing hw).symm.trans hfirst)
    obtain ⟨-, -, rfl⟩ := (completes_pushing_iff hw).mp h₁
    obtain ⟨hops, h₂₀, he, rest, signature, key, rfl, hdepth, hh, hsig, rfl⟩ :=
      (completes_pushing_p2pkh_iff hw).mp ⟨h₂, ht⟩
    refine ⟨⟨_, ⟨hw, rfl⟩, hu⟩, hsize, hops, h₂₀, he, rest, signature, key, rfl, hdepth, hh, hsig, ?_⟩
    obtain hlen | ⟨r, below, t, hs, hr, htakes, ht⟩ := hlast
    · left
      simpa [Stack.ofItems] using hlen
    · right
      obtain ⟨rfl, rfl⟩ : key = r ∧ Stack.ofItems (rest ++ [signature]) = below := by
        simpa [Stack.ofItems] using hs
      exact ⟨hr, t, htakes, ht⟩
  · rintro ⟨⟨_, ⟨hw, rfl⟩, hu⟩, hsize, hops, h₂₀, he, rest, signature, key, rfl, hdepth, hh, hsig, hlast⟩
    obtain ⟨h₂, ht⟩ := (completes_pushing_p2pkh_iff hw).mpr
      ⟨hops, h₂₀, he, rest, signature, key, rfl, hdepth, hh, hsig, rfl⟩
    have hlen : (rest ++ [signature, key]).length ≤ c.limits.maxStackSize := by
      rw [List.length_append, List.length_cons, List.length_singleton]
      omega
    have h₁ := (completes_pushing_iff hw).mpr ⟨he, fun _ => hlen, rfl⟩
    obtain ⟨m', hm⟩ := verify_p2pkh_ok_iff.mpr
      ⟨hu, hsize, _, _, _, Script.instructions_pushing hw, h₁, h₂, ht, by
        obtain rfl | ⟨hr, t, htakes, ht⟩ := hlast
        · exact .inl (Nat.le_refl 1)
        · exact .inr ⟨key, _, t, by simp [Stack.ofItems], hr, htakes, ht⟩⟩
    exact ⟨_, m', ⟨hw, rfl⟩, hm⟩

end

end Evaluator

/-- The serialized key is the script that pushes three and then all its other 28 bytes. -/
def scriptKey : Bytes :=
  0x03 :: beBytes 32 0x6131291cd95fb87801e42a68553952c29922bce891c026c0cae1f69c9661c82d

def scriptKeyHash : Hash160 := .ofNat 20 0x7d313045be6845a86df150102834e9f943101dbc

def scriptKeyInput : Input where
  outpoint := ⟨.zero, 0⟩
  sequence := Input.finalSequence
  unlocking := .empty
  witness :=
    [[],
      Signature.encode
        { r := .ofNat 32 0xdf9cf0bb2cc3a4c717b8b398989f4b263b193786e8b4708ac68b2ac07e662379
          s := .ofNat 32 0x233f6af2b2c87bf1593c9b548f87331b01b93743c74ff095afa732279070fe05 } ++ [1],
      scriptKey]
  spent := some
    { value := 1000
      template := .p2wpkh scriptKeyHash
      rawLocking := .witnessProgram scriptKeyHash.val
      finalLocking := .p2pkh scriptKeyHash
      redeem := none
      scriptCode := some (.p2pkh scriptKeyHash) }

def scriptKeySpend : Transaction :=
  { Transaction.empty with inputs := [scriptKeyInput], outputs := [⟨900, ⟨[Opcode.one]⟩⟩] }

/-- Three items satisfy the hash of a key that is a script. -/
theorem verify_ofWitness_p2pkh_threeItems :
    @Transaction.verifyInput Crypto.bitcoin scriptKeySpend 0 = .ok () ∧
      ∃ c u m, c = @Transaction.evaluatorWith Crypto.bitcoin
          (@Transaction.midstate Crypto.bitcoin scriptKeySpend) scriptKeySpend .witnessV0 0 ∧
        c.limits = {} ∧ Script.ofWitness scriptKeyInput.witness = .ok u ∧
        @Evaluator.verify Crypto.bitcoin c u (.p2pkh scriptKeyHash) {} = .ok () m ∧
        scriptKeyInput.witness.length = 3 := by
  have hv : @Transaction.verifyInput Crypto.bitcoin scriptKeySpend 0 = .ok () := by decide +kernel
  obtain ⟨i, s, u, m, hi, hs, hu, hm⟩ := (@Transaction.verifyInputWith_ok Crypto.bitcoin _ _ _).mp hv
  obtain rfl := Except.ok.inj (hi : Except.ok scriptKeyInput = .ok i)
  obtain rfl := Option.some.inj hs
  exact ⟨hv, _, u, m, rfl, rfl, hu, hm, rfl⟩

end BitcoinTx
