import BitcoinTx.Proofs.Builder.Build

/-! Builders conserve value: the inputs of a built transaction are worth its outputs and the fee. -/

namespace BitcoinTx

open Outcome

lemma sumOf_eq {α : Type} (f : α → Nat) (l : List α) : sumOf f l = (l.map f).sum := by
  induction l with
  | nil => rfl
  | cons x l ih => rw [List.map_cons, List.sum_cons, ← ih, sumOf, sumOf, List.foldr_cons]

lemma Transaction.totalInput_bare (tx : Transaction) : tx.bare.totalInput = tx.totalInput := by
  rw [totalInput, totalInput, firstUnknownCoin?, firstUnknownCoin?, bare, List.findIdx?_map,
    List.filterMap_map]
  rfl

lemma value_sum_of_pays {ps : List Payment} {l : List Output} (h : List.Forall₂ Payment.Pays ps l) :
    (l.map (·.value.toNat)).sum = (ps.map (·.value.toNat)).sum := by
  induction h with
  | nil => rfl
  | cons hp _ ih => rw [List.map_cons, List.map_cons, List.sum_cons, List.sum_cons, ih, hp.2]

lemma value_sum_of_carries {data : List ByteArray} {l : List Output}
    (h : List.Forall₂ (fun d o => o.Carries d) data l) : (l.map (·.value.toNat)).sum = 0 := by
  induction h with
  | nil => rfl
  | cons hd _ ih =>
    rw [List.map_cons, List.sum_cons, ih, hd.2]
    rfl

lemma Builder.Returns.sum_eq {script? : Option Script} {n : Nat} {l : List Output}
    (h : Returns script? n l) : (l.map (·.value.toNat)).sum = n := by
  obtain ⟨rfl, rfl⟩ | ⟨-, o, -, rfl, hv⟩ := h
  · rfl
  · rw [List.map_singleton, List.sum_singleton, hv]

lemma Payment.rightUnique_pays : Relator.RightUnique Payment.Pays := by
  rintro p ⟨v, s⟩ ⟨v', s'⟩ ⟨hs, hv⟩ ⟨hs', hv'⟩
  cases hs.symm.trans hs'
  cases hv.trans hv'.symm
  rfl

lemma Output.rightUnique_carries : Relator.RightUnique fun (d : ByteArray) (o : Output) => o.Carries d := by
  rintro d ⟨v, s⟩ ⟨v', s'⟩ ⟨hs, hv⟩ ⟨hs', hv'⟩
  cases hs.symm.trans hs'
  cases hv.trans hv'.symm
  rfl

lemma coinSum_filter {gs : List BuilderGroup} : coinSum (gs.filter (·.coin.isSome)) = coinSum gs := by
  rw [coinSum, List.filterMap_filter, coinSum]
  congr 3
  funext g
  cases g.coin <;> rfl

section

variable [Crypto] {gs : List BuilderGroup} {g : BuilderGroup} {i : Input}

namespace BuilderGroup

lemma rightUnique_funds : Relator.RightUnique Funds := by
  rintro g i i' ⟨coin, hcoin, hi⟩ ⟨coin', hcoin', hi'⟩
  obtain rfl := Option.some.inj (hcoin.symm.trans hcoin')
  exact Except.ok.inj (hi.symm.trans hi')

lemma Funds.bare (h : g.Funds i) : i.bare = i := by
  obtain ⟨coin, -, hi⟩ := h
  obtain ⟨s, -, rfl⟩ := except_map_ok.mp hi
  rfl

lemma Funds.value? (h : g.Funds i) : ∃ coin, g.coin = some coin ∧ i.value? = some coin.value := by
  obtain ⟨coin, hcoin, hi⟩ := h
  obtain ⟨s, hs, rfl⟩ := except_map_ok.mp hi
  simp only [SpentOutput.ofCoin, except_bind_ok, except_pure_ok] at hs
  obtain ⟨_, -, _, -, _, -, _, -, rfl⟩ := hs
  exact ⟨coin, hcoin, rfl⟩

end BuilderGroup

lemma coinSum_of_funds {l : List Input} (h : List.Forall₂ BuilderGroup.Funds gs l) :
    l.findIdx? (·.spent.isNone) = none ∧
      ((l.filterMap Input.value?).map UInt64.toNat).sum = coinSum gs := by
  induction h with
  | nil => exact ⟨rfl, rfl⟩
  | @cons g i gs l hg _ ih =>
    obtain ⟨coin, hcoin, hv⟩ := hg.value?
    have hspent : i.spent.isNone = false := by
      obtain ⟨s, hs, -⟩ := Option.map_eq_some_iff.mp hv
      rw [hs]
      rfl
    obtain ⟨hknown, hsum⟩ := ih
    constructor
    · rw [List.findIdx?_cons, hspent, hknown]
      rfl
    · rw [coinSum] at hsum
      simp only [List.filterMap_cons, hv, hcoin, coinSum, List.map_cons, List.sum_cons, hsum]

lemma map_bare_of_funds {l : List Input} (h : List.Forall₂ BuilderGroup.Funds gs l) :
    l.map Input.bare = l := by
  induction h with
  | nil => rfl
  | cons hg _ ih => rw [List.map_cons, hg.bare, ih]

namespace Builder

variable {b : Builder} {tx : Transaction}

namespace Funding

variable (f : b.Funding)

lemma totalInput : f.transaction.totalInput = .ok (coinSum b.groups) := by
  obtain ⟨hknown, hsum⟩ := coinSum_of_funds f.funds
  have hmax := f.coinSum_le
  rw [Transaction.totalInput, Transaction.firstUnknownCoin?, transaction, assemble]
  simp only [hknown, sumOf_eq, hsum, coinSum_filter, Except.ok.injEq]
  omega

lemma totalOutput_add_fee : f.transaction.totalOutput + f.fee = coinSum b.groups := by
  have hcovered := f.covered
  have hmax := f.coinSum_le
  have hsum : (f.transaction.outputs.map (·.value.toNat)).sum = coinSum b.groups - f.fee := by
    rw [transaction, assemble, List.map_append, List.map_append, List.sum_append, List.sum_append,
      value_sum_of_pays f.pays, f.returns.sum_eq, value_sum_of_carries f.carries, ← paymentSum, fee]
    omega
  rw [Transaction.totalOutput, sumOf_eq, hsum, fee]
  omega

lemma bare : f.transaction.bare = f.transaction := by
  rw [transaction, assemble, Transaction.bare, map_bare_of_funds f.funds]

end Funding

lemma build_bare {tx : Transaction} (h : b.build = .ok tx) :
    ∃ f : b.Funding, tx.bare = f.transaction := by
  rw [build, except_bind_ok] at h
  obtain ⟨⟨tx₀, l⟩, hfund, h⟩ := h
  obtain ⟨-, -, f, -, rfl⟩ := exists_funding hfund
  refine ⟨f, ?_⟩
  cases hsign : b.settings.sign with
  | true =>
    simp only [hsign, if_true] at h
    rw [(signAll_ok h).1, f.bare]
  | false =>
    simp only [hsign, Bool.false_eq_true, if_false, except_pure_ok] at h
    rw [← h, f.bare]

lemma exists_build_iff (hsign : b.settings.sign = false) :
    (∃ tx, b.build = .ok tx) ↔ Nonempty b.Funding := by
  constructor
  · rintro ⟨tx, h⟩
    obtain ⟨f, -⟩ := build_bare h
    exact ⟨f⟩
  · rintro ⟨f⟩
    obtain ⟨l, hl⟩ := f.exists_fund
    refine ⟨f.transaction, ?_⟩
    rw [build, except_bind_ok]
    exact ⟨_, hl, by rw [hsign]; rfl⟩

variable {inputs : List Input} {payments data : List Output} {script? : Option Script}

lemma nonempty_funding_iff (hinputs : inputs ≠ []) (hpayments : payments ≠ [])
    (hfunds : List.Forall₂ BuilderGroup.Funds (b.groups.filter (·.coin.isSome)) inputs)
    (hpays : List.Forall₂ Payment.Pays (b.groups.filterMap (·.payment)) payments)
    (hscript : b.ReturnsTo script?) (hdata : List.Forall₂ (fun d o => o.Carries d) b.data data)
    (hmax : coinSum b.groups ≤ Transaction.maxAmount) {fee : Nat}
    (hfee : fee = b.fee (b.draft inputs payments script? data)) :
    Nonempty b.Funding ↔ fee ≤ b.settings.maxFee.toNat ∧ paymentSum b.groups + fee ≤ coinSum b.groups ∧
      (coinSum b.groups = paymentSum b.groups + fee ∨ b.change.isSome) := by
  have hrest (n : Nat) : coinSum b.groups - n ≤ Transaction.maxAmount := by omega
  subst hfee
  rw [← hscript.isSome_eq]
  constructor
  · rintro ⟨f⟩
    obtain rfl := List.right_unique_forall₂' BuilderGroup.rightUnique_funds f.funds hfunds
    obtain rfl := List.right_unique_forall₂' Payment.rightUnique_pays f.pays hpays
    obtain rfl := f.returnsTo.unique hscript
    obtain rfl := List.right_unique_forall₂' Output.rightUnique_carries f.carries hdata
    refine ⟨f.fee_le, f.covered, ?_⟩
    rcases (exists_returns (hrest _)).mp ⟨f.change, f.returns⟩ with hzero | hchange
    · exact .inl (Nat.le_antisymm (Nat.sub_eq_zero_iff_le.mp hzero) f.covered)
    · exact .inr hchange
  · rintro ⟨hfee, hcovered, hchange⟩
    obtain ⟨change, hreturns⟩ := (exists_returns (hrest _)).mpr
      (hchange.imp_left fun h => Nat.sub_eq_zero_of_le (Nat.le_of_eq h))
    exact ⟨⟨inputs, payments, script?, change, data, hinputs, hpayments, hfunds, hpays, hscript, hdata, hmax,
      hfee, hcovered, hreturns⟩⟩

/-- What is built is what the groups spend and pay, the change and the data, with no value lost or
made; and without signing, what stands in the way is a fee that is too high, too little money or
change without an address, once the data items can be pushed and the change address has a script. -/
theorem build_conserves (b : Builder) :
    (∀ tx, b.build = .ok tx → ∃ f : b.Funding, tx.bare = f.transaction ∧
      tx.totalInput = .ok (tx.totalOutput + f.fee)) ∧
    (b.settings.sign = false → ∀ inputs payments, inputs ≠ [] → payments ≠ [] →
      List.Forall₂ BuilderGroup.Funds (b.groups.filter (·.coin.isSome)) inputs →
      List.Forall₂ Payment.Pays (b.groups.filterMap (·.payment)) payments →
      coinSum b.groups ≤ Transaction.maxAmount →
      (∀ d ∈ b.data, d.size < 2 ^ 32) →
      (∀ a, b.change = some a → ∃ s, a.lockingScript = .ok s) →
      ∃ script? data fee, b.ReturnsTo script? ∧
        List.Forall₂ (fun d o => o.Carries d) b.data data ∧
        fee = b.fee (b.draft inputs payments script? data) ∧
        ((∃ tx, b.build = .ok tx) ↔ fee ≤ b.settings.maxFee.toNat ∧
          paymentSum b.groups + fee ≤ coinSum b.groups ∧
          (coinSum b.groups = paymentSum b.groups + fee ∨ b.change.isSome))) := by
  constructor
  · intro tx h
    obtain ⟨f, hbare⟩ := build_bare h
    refine ⟨f, hbare, ?_⟩
    rw [← Transaction.totalInput_bare, hbare, f.totalInput, ← f.totalOutput_add_fee, ← hbare]
    rfl
  · intro hsign inputs payments hinputs hpayments hfunds hpays hmax hsize haddress
    obtain ⟨data, hdata⟩ := exists_carries.mpr hsize
    obtain ⟨script?, hscript⟩ := exists_returnsTo.mpr haddress
    refine ⟨script?, data, _, hscript, hdata, rfl, ?_⟩
    rw [exists_build_iff hsign, nonempty_funding_iff hinputs hpayments hfunds hpays hscript hdata hmax rfl]

/-- Coins, payments and a flat fee that leaves nothing over, with no signing. -/
structure Balanced (b : Builder) : Prop where
  sign_eq : b.settings.sign = false
  relayRate_eq : b.settings.relayRate = none
  funds : ∃ inputs, inputs ≠ [] ∧
    List.Forall₂ BuilderGroup.Funds (b.groups.filter (·.coin.isSome)) inputs
  pays : ∃ payments, payments ≠ [] ∧
    List.Forall₂ Payment.Pays (b.groups.filterMap (·.payment)) payments
  flatFee_le : b.settings.flatFee ≤ b.settings.maxFee
  coinSum_eq : coinSum b.groups = paymentSum b.groups + b.settings.flatFee.toNat
  coinSum_le : coinSum b.groups ≤ Transaction.maxAmount

lemma build_resolves (h : b.build = .ok tx) : (∀ d ∈ b.data, d.size < 2 ^ 32) ∧
    ∀ a, b.change = some a → ∃ s, a.lockingScript = .ok s := by
  obtain ⟨f, -⟩ := build_bare h
  exact ⟨exists_carries.mp ⟨f.data, f.carries⟩, exists_returnsTo.mp ⟨f.changeScript?, f.returnsTo⟩⟩

end Builder

end

/-- The second group only pays, and the third only spends. -/
def splitCoins : Builder where
  settings := { relayRate := some 1000, sign := false }
  earlier := [{ coin := some generatorCoin, payment := some ⟨.script "51", 1000⟩ },
    { payment := some ⟨.script "52", 500⟩ }]
  current := { coin := some { generatorCoin with value := 2000 }, sequence := 0 }
  change := some ⟨.p2wpkh, List.replicate 20 0x11, .mainnet⟩
  data := [⟨#[0xde, 0xad]⟩, ⟨#[0xbe]⟩]

lemma exists_build_splitCoins : ∃ tx, @Builder.build Crypto.bitcoin splitCoins = .ok tx :=
  except_isOk.mp (by decide +kernel)

theorem build_conserves_splitCoins :
    (∃ tx, @Builder.build Crypto.bitcoin splitCoins = .ok tx ∧
      ∃ f : @Builder.Funding splitCoins Crypto.bitcoin,
        tx.bare = @Builder.Funding.transaction splitCoins Crypto.bitcoin f ∧
        tx.totalInput = .ok (tx.totalOutput + @Builder.Funding.fee splitCoins Crypto.bitcoin f)) ∧
    ∃ inputs payments script? data fee, splitCoins.ReturnsTo script? ∧
      List.Forall₂ (fun d o => o.Carries d) splitCoins.data data ∧
      fee = splitCoins.fee (splitCoins.draft inputs payments script? data) ∧
      fee ≤ splitCoins.settings.maxFee.toNat ∧
      paymentSum splitCoins.groups + fee ≤ coinSum splitCoins.groups ∧
      (coinSum splitCoins.groups = paymentSum splitCoins.groups + fee ∨
        splitCoins.change.isSome) := by
  let _ := Crypto.bitcoin
  obtain ⟨hconserves, hiff⟩ := @Builder.build_conserves Crypto.bitcoin splitCoins
  obtain ⟨tx, hb⟩ := exists_build_splitCoins
  obtain ⟨f, hbare, htotal⟩ := hconserves tx hb
  have hsize : ∀ d ∈ splitCoins.data, d.size < 2 ^ 32 := by decide
  have haddress : ∀ a, splitCoins.change = some a → ∃ s, a.lockingScript = .ok s := by
    rintro a ⟨⟩
    exact ⟨_, rfl⟩
  obtain ⟨script?, data, fee, hscript, hdata, hfee, hbuilt⟩ :=
    hiff rfl f.inputs f.payments f.inputs_ne_nil f.payments_ne_nil f.funds f.pays f.coinSum_le hsize haddress
  exact ⟨⟨tx, hb, f, hbare, htotal⟩,
    f.inputs, f.payments, script?, data, fee, hscript, hdata, hfee, hbuilt.mp ⟨tx, hb⟩⟩

def spendEvenly (change : Option AddressFields) (data : List ByteArray) : Builder :=
  { splitCoins with settings := { flatFee := 1500, sign := false }, change, data }

lemma balanced_spendEvenly (change : Option AddressFields) (data : List ByteArray) :
    @Builder.Balanced Crypto.bitcoin (spendEvenly change data) := by
  let _ := Crypto.bitcoin
  obtain ⟨f⟩ := (Builder.exists_build_iff rfl).mp exists_build_splitCoins
  have hfee : (1500 : UInt64) ≤ 1000000 := by decide
  have hsum : coinSum splitCoins.groups = paymentSum splitCoins.groups + 1500 := by decide
  have hmax : coinSum splitCoins.groups ≤ Transaction.maxAmount := by decide
  exact ⟨rfl, rfl, ⟨f.inputs, f.inputs_ne_nil, f.funds⟩, ⟨f.payments, f.payments_ne_nil, f.pays⟩, hfee, hsum,
    hmax⟩

/-- Balanced builders fail on a data item that is too long to be pushed, and on an address for the change whose
kind was set from that of a script hash of 32 bytes to that of a key hash. -/
theorem balanced_not_built :
    let oversized := spendEvenly none [⟨Array.replicate (2 ^ 32) 0⟩]
    let misfit := spendEvenly (some ⟨.p2pkh, List.replicate 32 0, .mainnet⟩) []
    (@Builder.Balanced Crypto.bitcoin oversized ∧ ∀ tx, @Builder.build Crypto.bitcoin oversized ≠ .ok tx) ∧
      @Builder.Balanced Crypto.bitcoin misfit ∧ ∀ tx, @Builder.build Crypto.bitcoin misfit ≠ .ok tx := by
  let _ := Crypto.bitcoin
  intro oversized misfit
  refine ⟨⟨balanced_spendEvenly _ _, fun tx h => ?_⟩, balanced_spendEvenly _ _, fun tx h => ?_⟩
  · have hsize := (Builder.build_resolves h).1 ⟨Array.replicate (2 ^ 32) 0⟩ (List.mem_singleton_self _)
    rw [ByteArray.size, Array.size_replicate] at hsize
    exact Nat.lt_irrefl _ hsize
  · obtain ⟨s, hs⟩ := (Builder.build_resolves h).2 ⟨.p2pkh, List.replicate 32 0, .mainnet⟩ rfl
    cases hs

end BitcoinTx
