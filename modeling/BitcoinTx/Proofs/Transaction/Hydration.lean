import BitcoinTx.Proofs.Transaction.Codec
import BitcoinTx.Proofs.Transaction.History
import BitcoinTx.Proofs.Transaction.Spending

/-! Coins do not travel on the wire. A signed input still tells the redeem script that it was signed with,
so that the coins alone bring back what the wire drops. -/

namespace BitcoinTx

open Outcome Instruction

def Input.forget (i : Input) : Input := { i with spent := none }

lemma Template.getLast?_redeemItems (l : List KeySignature) (r : Script) :
    (redeemItems l r).getLast? = some r.bytes := by
  rw [redeemItems, ← List.cons_append, List.getLast?_concat]

section

variable [Crypto]

namespace Input

variable {i : Input} {l : List KeySignature} {redeem : Option Script} {coin : Coin}

lemma redeem?_of_unlocking {t : Template} (hu : t.unlockingScript l redeem = .ok i.unlocking)
    (hw : t.version = .witnessV0 → t.witnessStack l redeem = .ok i.witness)
    (hredeem : redeem ≠ none → t.kind = .p2sh ∨ t.kind = .p2wsh) : i.redeem? t = .ok redeem := by
  cases t with
  | p2pkh | p2wpkh =>
    have hnone : redeem = none := by
      by_contra h
      cases hredeem h <;> contradiction
    rw [hnone]
    rfl
  | p2sh =>
    obtain ⟨r, rfl, hsize, hi⟩ := Template.unlockingScript_p2sh hu
    have hlast := Template.getLast?_redeemItems l r
    have hpush : (pushing r.bytes).IsPush := isPush_pushing (hsize _ (List.mem_of_getLast? hlast))
    rw [redeem?, hi, Script.instructions_pushing hsize]
    change Except.ok _ = _
    rw [List.getLast?_map, hlast]
    simp [hpush]
  | p2wsh =>
    obtain ⟨r, rfl, hi⟩ := Template.witnessStack_p2wsh (hw rfl)
    rw [redeem?, hi, Template.getLast?_redeemItems]
    rfl

lemma spentOf_forget : i.forget.spentOf coin redeem = i.spentOf coin redeem := rfl

/-- The coin, on its own, tells what is known about the output that the input spends. -/
def Recalls (i : Input) (coin : Coin) : Prop :=
  coin.outpoint = i.outpoint ∧ ∃ s, i.spent = some s ∧ i.spentOf coin none = .ok s

end Input

lemma Transaction.SignedBy.recalls {tx : Transaction} {index : Nat} {signer : Signer} {i : Input}
    {s : SpentOutput} {coin : Coin} {redeem : Option Script} (h : tx.SignedBy index signer)
    (hi : tx.input index = .ok i) (hs : i.spent = some s) (ho : coin.outpoint = i.outpoint)
    (hcoin : SpentOutput.ofCoin coin redeem = .ok s)
    (hredeem : redeem ≠ none → s.template.kind = .p2sh ∨ s.template.kind = .p2wsh) :
    i.Recalls coin := by
  obtain ⟨i', s', d, l, hi', hs', -, -, hu, hw⟩ := h
  obtain rfl := Except.ok.inj (hi.symm.trans hi')
  obtain rfl := Option.some.inj (hs.symm.trans hs')
  obtain ⟨raw, t, locking, code, hraw, ht, -, hcode, rfl⟩ := SpentOutput.ofCoin_ok.mp hcoin
  have hwitness : t.version = .witnessV0 → code ≠ none := by
    intro hv hnone
    rw [(Template.scriptCode_eq_none_iff hcode).mp hnone] at hv
    cases hv
  refine ⟨ho, _, hs, ?_⟩
  rw [Input.spentOf, Input.findRedeem, hraw, except_ok_bind, ht, except_ok_bind,
    Input.redeem?_of_unlocking hu (fun hv => hw (hwitness hv)) hredeem, except_ok_bind, hcoin]

end

namespace Transaction

def knowing (tx : Transaction) (known : List Nat) : Transaction :=
  { tx with inputs := tx.inputs.mapIdx fun k i => if k ∈ known then i else i.forget }

section

variable {tx : Transaction} {known : List Nat} {index : Nat} {i : Input}

lemma input_knowing (hi : tx.inputs[index]? = some i) :
    ∃ j, (tx.knowing known).input index = .ok j ∧ j.forget = i.forget := by
  refine ⟨if index ∈ known then i else i.forget, ?_, ?_⟩
  · rw [input, knowing, List.getElem?_mapIdx, hi]
    rfl
  · split <;> rfl

lemma knowing_eq_self (h : ∀ k < tx.inputs.length, k ∈ known) : tx.knowing known = tx := by
  have hinputs : tx.inputs.mapIdx (fun k i => if k ∈ known then i else i.forget) = tx.inputs := by
    refine List.ext_getElem (List.length_mapIdx ..) fun k _ hk => ?_
    rw [List.getElem_mapIdx, if_pos (h k hk)]
  rw [knowing, hinputs]

lemma knowing_modifyInput {s : SpentOutput} (hi : tx.inputs[index]? = some i)
    (hs : i.spent = some s) :
    (tx.knowing known).modifyInput index ({ · with spent := some s }) =
      tx.knowing (index :: known) := by
  simp only [knowing, modifyInput, mk.injEq, true_and, and_true]
  refine List.ext_getElem? fun k => ?_
  rw [List.getElem?_modify, List.getElem?_mapIdx, List.getElem?_mapIdx]
  by_cases hk : index = k
  · subst hk
    have hknow (j : Input) (hj : j = i ∨ j = i.forget) : { j with spent := some s } = i := by
      obtain rfl | rfl := hj <;> simp only [Input.forget, ← hs]
    by_cases hmem : index ∈ known <;> simp [hi, hmem, hknow]
  · have hmem : k ∈ index :: known ↔ k ∈ known := by simp [Ne.symm hk]
    simp [hk, hmem]

def wire (tx : Transaction) : Transaction := { tx with inputs := tx.inputs.map Input.forget }

lemma knowing_nil : tx.knowing [] = tx.wire := by
  have hinputs : tx.inputs.mapIdx (fun _ i => i.forget) = tx.inputs.map Input.forget :=
    List.ext_getElem? fun k => by simp
  simp [knowing, wire, hinputs]

lemma encode_wire : tx.wire.encode = tx.encode := by
  simp only [encode, hasWitness, encodeWitness, encodeBase, encodeInputs, encodeOutputs, wire,
    List.flatMap_map, List.any_map, List.length_map]
  rfl

lemma Addressable.wire (h : tx.Addressable) : tx.wire.Addressable where
  inputs := by
    rw [Transaction.wire, List.length_map]
    exact h.inputs
  outputs := h.outputs
  unlocking := List.forall_mem_map.mpr h.unlocking
  locking := h.locking
  witnesses := List.forall_mem_map.mpr h.witnesses
  items := List.forall_mem_map.mpr h.items

lemma ofBytes_wire (hsize : tx.Addressable) (hne : tx.inputs ≠ []) :
    ofBytes tx.encode = .ok tx.wire := by
  have hread : tx.wire.Readable :=
    ⟨List.forall_mem_map.mpr fun _ _ => rfl, fun h => absurd (List.map_eq_nil_iff.mp h) hne⟩
  rw [← encode_wire]
  exact ofBytes_of_counts hread fun _ => hsize.wire.lt

end

variable [Crypto] {tx : Transaction} {known : List Nat} {index : Nat} {coin : Coin}
variable {coins : List Coin}

lemma hydrate_knowing (h : List.Forall₂ Input.Recalls tx.inputs coins)
    (hcoin : coins[index]? = some coin) :
    (tx.knowing known).hydrate index coin none = .ok (tx.knowing (index :: known)) := by
  obtain ⟨hlength, hrecalls⟩ := List.forall₂_iff_get.mp h
  obtain ⟨hlt, rfl⟩ := List.getElem?_eq_some_iff.mp hcoin
  have hi : tx.inputs[index]? = some tx.inputs[index] := List.getElem?_eq_getElem _
  obtain ⟨ho, s, hs, hspent⟩ := hrecalls index (hlength ▸ hlt) hlt
  obtain ⟨j, hj, hforget⟩ := @input_knowing tx known index _ hi
  have ho : coins[index].outpoint = j.outpoint := ho.trans (congrArg Input.outpoint hforget).symm
  have hspent : j.spentOf coins[index] none = .ok s := by
    rw [← Input.spentOf_forget, hforget]
    exact hspent
  rw [hydrate, hj, except_ok_bind, if_neg (not_not.mpr ho), hspent]
  exact congrArg Except.ok (knowing_modifyInput hi hs)

end Transaction

namespace CachedTransaction

variable [Crypto]

def hydrateEach (l : List (Nat × Coin)) : CachedM Unit := l.forM fun x => hydrate x.1 x.2 none

lemma hydrateEach_knowing {tx : Transaction} {known : List Nat} {coins : List Coin}
    {l : List (Nat × Coin)} (h : List.Forall₂ Input.Recalls tx.inputs coins)
    (hl : ∀ x ∈ l, coins[x.1]? = some x.2) :
    hydrateEach l { tx := tx.knowing known } =
      .ok () { tx := tx.knowing ((l.map Prod.fst).reverse ++ known) } := by
  induction l generalizing known with
  | nil => rfl
  | cons x l ih =>
    obtain ⟨hx, hl⟩ := List.forall_mem_cons.mp hl
    have hstep : hydrate x.1 x.2 none { tx := tx.knowing known } =
        .ok () { tx := tx.knowing (x.1 :: known) } := by
      rw [hydrate, keep, get_bind_ok, ofExcept_bind_ok]
      exact ⟨_, Transaction.hydrate_knowing h hx, rfl⟩
    have hrest : hydrateEach l { tx := tx.knowing (x.1 :: known) } = _ := ih hl
    rw [List.map_cons, List.reverse_cons, List.append_assoc, List.singleton_append]
    exact seq_ok.mpr ⟨_, hstep, hrest⟩

end CachedTransaction

end BitcoinTx
