import BitcoinTx.Proofs.Builder.Build
import BitcoinTx.Proofs.Transaction.Hydration

/-! The transactions that builders build come back from the wire and the coins of the groups. -/

namespace BitcoinTx

open Outcome CachedTransaction

namespace Builder

def coins (b : Builder) : List Coin := b.groups.filterMap (·.coin)

/-- Redeem scripts are given only for the coins that pay to the hash of one. -/
def RedeemsScripts (b : Builder) : Prop :=
  ∀ g ∈ b.groups, ∀ coin raw t, g.coin = some coin → coin.lockingScript = .ok raw →
    Template.ofLockingScript raw = .ok t → g.redeem ≠ none → t.kind = .p2sh ∨ t.kind = .p2wsh

lemma map_coin_filter (gs : List BuilderGroup) :
    (gs.filter (·.coin.isSome)).map (·.coin) = (gs.filterMap (·.coin)).map some := by
  induction gs with
  | nil => rfl
  | cons g gs ih =>
    cases hcoin : g.coin with
    | none => simpa [hcoin] using ih
    | some coin => simpa [hcoin] using ih

section

variable [Crypto]

variable {b : Builder} {tx : Transaction}

lemma build_ok (hsign : b.settings.sign = true) (h : b.build = .ok tx) :
    ∃ l : List FundedInput, l ≠ [] ∧ l.map FundedInput.group = b.groups.filter (·.coin.isSome) ∧
      (∀ f ∈ l, f.group.Funds f.input) ∧ tx.inputs.map Input.bare = l.map (·.input.bare) ∧
      ∀ k f, l[k]? = some f → tx.SignedBy k f.group.signer := by
  simp only [build, except_bind_ok, hsign, if_true] at h
  obtain ⟨⟨tx₀, l⟩, hfund, h⟩ := h
  obtain ⟨hgroups, hfunds, funding, hinputs, rfl⟩ := exists_funding hfund
  obtain ⟨hbare, -, hsigned⟩ := signAll_ok h
  refine ⟨l, ?_, hgroups, hfunds, ?_, fun k f hk => ?_⟩
  · rintro rfl
    exact funding.inputs_ne_nil hinputs
  · have hbare : tx.inputs.map Input.bare = funding.inputs.map Input.bare :=
      congrArg Transaction.inputs hbare
    rw [hbare, hinputs, List.map_map]
    rfl
  · have := hsigned k f hk
    rwa [Nat.zero_add] at this

lemma recalls_of_funds {g : BuilderGroup} {i j : Input} {k : Nat} {coin : Coin}
    (hredeem : b.RedeemsScripts) (hg : g ∈ b.groups) (hcoin : g.coin = some coin) (hi : g.Funds i)
    (hj : tx.inputs[k]? = some j) (hbare : j.bare = i.bare) (hsigned : tx.SignedBy k g.signer) :
    j.Recalls coin := by
  obtain ⟨coin', hcoin', hi⟩ := hi
  obtain rfl := Option.some.inj (hcoin.symm.trans hcoin')
  obtain ⟨s, hs, rfl⟩ := except_map_ok.mp hi
  have hinput : tx.input k = .ok j := by rw [Transaction.input, hj]
  have hspent : j.spent = some s := (congrArg Input.spent hbare :)
  have houtpoint : j.outpoint = coin.outpoint := (congrArg Input.outpoint hbare :)
  refine hsigned.recalls hinput hspent houtpoint.symm hs ?_
  obtain ⟨raw, t, locking, code, hraw, ht, -, -, rfl⟩ := SpentOutput.ofCoin_ok.mp hs
  exact hredeem g hg coin raw t hcoin hraw ht

lemma build_recalls (hsign : b.settings.sign = true) (hredeem : b.RedeemsScripts)
    (h : b.build = .ok tx) : tx.inputs ≠ [] ∧ List.Forall₂ Input.Recalls tx.inputs b.coins := by
  obtain ⟨l, hne, hgroups, hfunds, hbare, hsigned⟩ := build_ok hsign h
  have hcoins : l.map (·.group.coin) = b.coins.map some := by
    rw [coins, ← map_coin_filter, ← hgroups, List.map_map]
    rfl
  have hinputs : tx.inputs.length = l.length := by simpa using congrArg List.length hbare
  have hlength : l.length = b.coins.length := by simpa using congrArg List.length hcoins
  refine ⟨fun hnil => hne ?_, List.forall₂_iff_get.mpr ⟨hinputs.trans hlength, fun k hk hk' => ?_⟩⟩
  · rw [hnil] at hinputs
    exact List.length_eq_zero_iff.mp hinputs.symm
  · have hl : k < l.length := hinputs ▸ hk
    have hmem : l[k] ∈ l := List.getElem_mem hl
    have hgroup : l[k].group ∈ b.groups.filter (·.coin.isSome) :=
      hgroups ▸ List.mem_map_of_mem hmem
    have hcoin : l[k].group.coin = some b.coins[k] := by
      simpa [hl, hk'] using congrArg (·[k]?) hcoins
    have hbare : tx.inputs[k].bare = l[k].input.bare := by
      simpa [hl, hk] using congrArg (·[k]?) hbare
    exact recalls_of_funds hredeem (List.mem_of_mem_filter hgroup) hcoin (hfunds _ hmem)
      (List.getElem?_eq_getElem hk) hbare (hsigned k _ (List.getElem?_eq_getElem hl))

/-- The coins may be told in any order, and more than once, if every input is told its coin. What the
built transaction remembers of its hashes makes no difference to verifying it. -/
theorem build_rehydrates (hsign : b.settings.sign = true) (hredeem : b.RedeemsScripts)
    (h : b.build = .ok tx) (hsize : tx.Addressable) :
    ∃ wire, Transaction.ofBytes tx.encode = .ok wire ∧ wire.inputs.length = b.coins.length ∧
      (∀ l : List (Nat × Coin), (∀ x ∈ l, b.coins[x.1]? = some x.2) →
        (∀ k < b.coins.length, k ∈ l.map Prod.fst) →
          hydrateEach l { tx := wire } = .ok () { tx }) ∧
      ∀ built, Reached built → built.tx = tx → answer verify built = answer verify { tx } := by
  obtain ⟨hne, hrecalls⟩ := build_recalls hsign hredeem h
  have hlength := hrecalls.length_eq
  refine ⟨tx.wire, Transaction.ofBytes_wire hsize hne, ?_, fun l hl hall => ?_, fun built hb htx => ?_⟩
  · rw [Transaction.wire, List.length_map, hlength]
  · rw [← Transaction.knowing_nil, hydrateEach_knowing hrecalls hl, List.append_nil,
      Transaction.knowing_eq_self]
    intro k hk
    rw [List.mem_reverse]
    exact hall k (hlength ▸ hk)
  · have hfresh : Coherent { tx } := .inl rfl
    rw [refines_verify.answer_eq hb.coherent, refines_verify.answer_eq hfresh, htx]

end

end Builder

lemma redeemsScripts_spendBoth : spendBoth.RedeemsScripts := by
  intro g hg coin raw t hcoin hraw ht hredeem
  obtain rfl | rfl : g = spendGenerator ∨ g = spendEither := by
    simpa [Builder.groups, spendBoth] using hg
  · exact absurd rfl hredeem
  · obtain rfl := Option.some.inj hcoin
    have hkind : (eitherCoin.lockingScript >>= Template.ofLockingScript).map Template.kind =
        .ok .p2sh := by decide +kernel
    rw [hraw, except_ok_bind, ht] at hkind
    exact .inl (Except.ok.inj hkind)

theorem build_rehydrates_spendBoth :
    ∃ tx wire, @Builder.build Crypto.bitcoin spendBoth = .ok tx ∧
      Transaction.ofBytes tx.encode = .ok wire ∧
        @hydrateEach Crypto.bitcoin [(1, eitherCoin), (0, generatorCoin)]
          { tx := wire } = .ok () { tx } := by
  have hbuild : (@Builder.build Crypto.bitcoin spendBoth).toOption.any (·.Addressable) = true := by
    decide +kernel
  cases hb : @Builder.build Crypto.bitcoin spendBoth with
  | error e =>
    rw [hb] at hbuild
    cases hbuild
  | ok tx =>
    rw [hb] at hbuild
    obtain ⟨wire, hwire, -, hhydrate, -⟩ :=
      @Builder.build_rehydrates Crypto.bitcoin spendBoth tx rfl redeemsScripts_spendBoth hb
        (of_decide_eq_true hbuild)
    exact ⟨tx, wire, rfl, hwire, hhydrate _ (by decide) (by decide)⟩

end BitcoinTx
