import BitcoinTx.Builder.Build
import BitcoinTx.Proofs.Eval.Outcome
import BitcoinTx.Proofs.Script.Pushes
import Mathlib.Algebra.GroupWithZero.Nat
import Mathlib.Control.Monad.Basic

/-! Coins, payments, change and data as the inputs and outputs of the transaction that a builder funds. -/

namespace BitcoinTx

open Outcome

def BuilderGroup.Funds [Crypto] (g : BuilderGroup) (i : Input) : Prop :=
  ∃ coin, g.coin = some coin ∧ Input.ofCoin coin g.redeem g.sequence = .ok i

def Payment.Pays (p : Payment) (o : Output) : Prop :=
  p.destination.lockingScript = .ok o.script ∧ o.value = p.value

def Output.Carries (o : Output) (d : ByteArray) : Prop :=
  Script.dataCarrier d.data.toList = .ok o.script ∧ o.value = 0

lemma dataScript_eq (d : ByteArray) : dataScript d = Script.dataCarrier d.data.toList := by
  rw [dataScript]
  split
  · next h => exact (Script.pushData_error h).symm
  · rfl

lemma exists_carries {data : List ByteArray} :
    (∃ l : List Output, List.Forall₂ (fun d o => o.Carries d) data l) ↔
      ∀ d ∈ data, d.size < 2 ^ 32 := by
  induction data with
  | nil => exact ⟨fun _ d hd => (by cases hd), fun _ => ⟨[], .nil⟩⟩
  | cons d data ih =>
    rw [List.forall_mem_cons, ← ih]
    constructor
    · rintro ⟨_, h⟩
      obtain ⟨o, l, hd, hl, -⟩ := List.forall₂_cons_left_iff.mp h
      exact ⟨(Script.pushData_ok_iff.mp hd.1).1, l, hl⟩
    · rintro ⟨hd, l, hl⟩
      exact ⟨⟨0, _⟩ :: l, .cons ⟨Script.pushData_ok_iff.mpr ⟨hd, rfl⟩, rfl⟩ hl⟩

def coinSum (gs : List BuilderGroup) : Nat := ((gs.filterMap (·.coin)).map (·.value.toNat)).sum

def paymentSum (gs : List BuilderGroup) : Nat := ((gs.filterMap (·.payment)).map (·.value.toNat)).sum

namespace Builder

def ReturnsTo (b : Builder) (script? : Option Script) : Prop :=
  Option.Rel (fun a s => a.lockingScript = .ok s) b.change script?

namespace ReturnsTo

variable {b : Builder} {script? script?' : Option Script}

lemma isSome_eq (h : b.ReturnsTo script?) : script?.isSome = b.change.isSome := by
  rw [ReturnsTo] at h
  generalize b.change = change at h
  cases h <;> rfl

lemma unique (h : b.ReturnsTo script?) (h' : b.ReturnsTo script?') : script? = script?' := by
  rw [ReturnsTo] at h h'
  generalize b.change = change at h h'
  cases h with
  | none =>
    cases h'
    rfl
  | some hs =>
    obtain ⟨hs'⟩ := h'
    exact congrArg some (Except.ok.inj (hs.symm.trans hs'))

end ReturnsTo

lemma exists_returnsTo {b : Builder} :
    (∃ script?, b.ReturnsTo script?) ↔ ∀ a, b.change = some a → ∃ s, a.lockingScript = .ok s := by
  simp only [ReturnsTo]
  cases b.change with
  | none => exact ⟨fun _ _ => nofun, fun _ => ⟨none, .none⟩⟩
  | some a =>
    constructor
    · rintro ⟨_, ⟨hs⟩⟩ _ ⟨⟩
      exact ⟨_, hs⟩
    · intro h
      obtain ⟨s, hs⟩ := h a rfl
      exact ⟨some s, .some hs⟩

def Returns (script? : Option Script) (n : Nat) (l : List Output) : Prop :=
  n = 0 ∧ l = [] ∨ 0 < n ∧ ∃ o, script? = some o.script ∧ l = [o] ∧ o.value.toNat = n

variable {b : Builder} {gs : List BuilderGroup} {script? : Option Script} {index total total' : Nat}

lemma addAmount_ok {v : UInt64} {n : Nat} :
    addAmount total v = .ok n ↔ n = total + v.toNat ∧ n ≤ Transaction.maxAmount := by
  rw [addAmount]
  split
  · next h =>
    rw [Except.ok.injEq, eq_comm]
    refine ⟨fun hn => ⟨hn, hn ▸ h⟩, fun hn => hn.1⟩
  · next h =>
    simp only [reduceCtorEq, false_iff, not_and]
    intro hn
    rwa [hn]

lemma collectPayments_ok {l : List Output} (ht : total ≤ Transaction.maxAmount) :
    collectPayments index total gs = .ok (l, total') ↔
      List.Forall₂ Payment.Pays (gs.filterMap (·.payment)) l ∧ total' = total + paymentSum gs ∧
        total' ≤ Transaction.maxAmount := by
  induction gs generalizing index total l with
  | nil =>
    simp only [collectPayments, Except.ok.injEq, Prod.mk.injEq, List.filterMap_nil,
      List.forall₂_nil_left_iff, paymentSum, List.map_nil, List.sum_nil, Nat.add_zero]
    constructor
    · rintro ⟨rfl, rfl⟩
      exact ⟨rfl, rfl, ht⟩
    · rintro ⟨rfl, rfl, -⟩
      exact ⟨rfl, rfl⟩
  | cons g gs ih =>
    rw [collectPayments]
    cases hp : g.payment with
    | none =>
      simp only [paymentSum, List.filterMap_cons, hp]
      exact ih ht
    | some p =>
      simp only [paymentSum, List.filterMap_cons, hp, except_bind_ok, mapError_ok, except_pure_ok,
        Prod.exists, Prod.mk.injEq, addAmount_ok, List.forall₂_cons_left_iff, List.map_cons,
        List.sum_cons]
      constructor
      · rintro ⟨s, hs, n, ⟨rfl, hn⟩, k, m, hrest, rfl, rfl⟩
        obtain ⟨hk, hm, hmax⟩ := (ih hn).mp hrest
        refine ⟨⟨_, k, ⟨hs, rfl⟩, hk, rfl⟩, ?_, hmax⟩
        rw [hm, paymentSum, Nat.add_assoc]
      · rintro ⟨⟨o, k, ⟨hs, hv⟩, hk, rfl⟩, hm, hmax⟩
        have hn : total + p.value.toNat ≤ Transaction.maxAmount := by omega
        refine ⟨o.script, hs, _, ⟨rfl, hn⟩, k, total', (ih hn).mpr ⟨hk, ?_, hmax⟩, ?_, rfl⟩
        · rw [hm, paymentSum, Nat.add_assoc]
        · rw [← hv]

lemma dataOutputs_ok {l : List Output} :
    b.dataOutputs = .ok l ↔ List.Forall₂ (fun d o => o.Carries d) b.data l := by
  rw [dataOutputs, mapError_ok, mapM_ok]
  have hrel : (fun d o => (dataScript d).map (Output.mk 0) = .ok o) =
      fun (d : ByteArray) (o : Output) => o.Carries d := by
    funext d o
    rw [dataScript_eq, except_map_ok, Output.Carries]
    apply propext
    constructor
    · rintro ⟨s, hs, rfl⟩
      exact ⟨hs, rfl⟩
    · rintro ⟨hs, hv⟩
      exact ⟨o.script, hs, by rw [← hv]⟩
  rw [hrel]

lemma changeAfter_ok {totalIn totalOut fee change : Nat} :
    b.changeAfter totalIn totalOut fee = .ok change ↔ fee ≤ b.settings.maxFee.toNat ∧
      totalOut + fee ≤ totalIn ∧ change = totalIn - (totalOut + fee) := by
  rw [changeAfter]
  split_ifs with hmax hout hfee
  · simp only [false_iff, not_and]
    omega
  · simp only [false_iff, not_and]
    omega
  · simp only [false_iff, not_and]
    omega
  · simp only [Except.ok.injEq]
    omega

lemma changeScript?_ok : b.changeScript? = .ok script? ↔ b.ReturnsTo script? := by
  rw [changeScript?, mapError_ok, option_mapM_ok, ReturnsTo]

lemma changeOutputs_ok {n : Nat} {l : List Output} (hn : n ≤ Transaction.maxAmount) :
    changeOutputs script? n = .ok l ↔ Returns script? n l := by
  rw [changeOutputs.eq_def, Returns]
  by_cases hzero : n = 0
  · simp [hzero, eq_comm]
  · have hpos : 0 < n := Nat.pos_of_ne_zero hzero
    have hvalue : (UInt64.ofNat n).toNat = n :=
      UInt64.toNat_ofNat_of_lt' (Nat.lt_succ_of_le hn)
    rw [if_neg hzero]
    cases script? with
    | none => simp [hzero]
    | some s =>
      simp only [Option.some.injEq, Except.ok.injEq, hzero, false_and, hpos, true_and, false_or]
      constructor
      · rintro rfl
        exact ⟨_, rfl, rfl, hvalue⟩
      · rintro ⟨o, rfl, rfl, hv⟩
        rw [← hv, UInt64.ofNat_toNat]

lemma exists_returns {n : Nat} (hn : n ≤ Transaction.maxAmount) :
    (∃ l, Returns script? n l) ↔ n = 0 ∨ script?.isSome := by
  rcases Nat.eq_zero_or_pos n with rfl | hpos
  · exact ⟨fun _ => .inl rfl, fun _ => ⟨[], .inl ⟨rfl, rfl⟩⟩⟩
  · rw [Option.isSome_iff_exists, or_iff_right (Nat.ne_of_gt hpos)]
    constructor
    · rintro ⟨l, ⟨rfl, -⟩ | ⟨-, o, hs, -⟩⟩
      · exact absurd hpos (Nat.lt_irrefl 0)
      · exact ⟨o.script, hs⟩
    · rintro ⟨s, hs⟩
      exact ⟨_, .inr ⟨hpos, ⟨.ofNat n, s⟩, hs, rfl, UInt64.toNat_ofNat_of_lt' (Nat.lt_succ_of_le hn)⟩⟩

variable [Crypto] {l : List FundedInput}

lemma collectInputs_ok (h : collectInputs index total gs = .ok (l, total')) :
    l.map FundedInput.group = gs.filter (·.coin.isSome) ∧ (∀ f ∈ l, f.group.Funds f.input) ∧
      total' = total + coinSum gs ∧ (total ≤ Transaction.maxAmount → total' ≤ Transaction.maxAmount) := by
  induction gs generalizing index total l with
  | nil =>
    cases h
    exact ⟨rfl, fun f hf => (by cases hf), rfl, id⟩
  | cons g gs ih =>
    rw [collectInputs] at h
    cases hcoin : g.coin with
    | none =>
      simp only [hcoin] at h
      simpa only [coinSum, List.filterMap_cons, List.filter_cons, hcoin, Option.isSome_none,
        Bool.false_eq_true, if_false] using ih h
    | some coin =>
      simp only [hcoin, except_bind_ok, mapError_ok, except_pure_ok] at h
      obtain ⟨i, hi, n, hn, ⟨rest, m⟩, hrest, h⟩ := h
      cases h
      obtain ⟨rfl, hmax⟩ := addAmount_ok.mp hn
      obtain ⟨hgroups, hfunds, hm, hle⟩ := ih hrest
      change m = _ at hm
      simp only [coinSum, List.filterMap_cons, List.filter_cons, hcoin, Option.isSome_some, if_true,
        List.map_cons, List.sum_cons, List.forall_mem_cons]
      refine ⟨by rw [hgroups], ⟨⟨coin, hcoin, hi⟩, hfunds⟩, ?_, fun _ => hle hmax⟩
      rw [hm, coinSum, Nat.add_assoc]

lemma exists_collectInputs {inputs : List Input}
    (h : List.Forall₂ BuilderGroup.Funds (gs.filter (·.coin.isSome)) inputs)
    (hmax : total + coinSum gs ≤ Transaction.maxAmount) :
    ∃ l, collectInputs index total gs = .ok (l, total + coinSum gs) ∧
      l.map FundedInput.input = inputs := by
  induction gs generalizing index total inputs with
  | nil =>
    cases h
    exact ⟨[], rfl, rfl⟩
  | cons g gs ih =>
    rw [collectInputs]
    cases hcoin : g.coin with
    | none =>
      simp only [coinSum, List.filterMap_cons, List.filter_cons, hcoin, Option.isSome_none,
        Bool.false_eq_true, if_false] at h hmax ⊢
      exact ih h hmax
    | some coin =>
      simp only [coinSum, List.filterMap_cons, List.filter_cons, hcoin, Option.isSome_some, if_true,
        List.map_cons, List.sum_cons] at h hmax ⊢
      obtain ⟨i, rest, ⟨coin', hcoin', hi⟩, hrest, rfl⟩ := List.forall₂_cons_left_iff.mp h
      obtain rfl := Option.some.inj (hcoin.symm.trans hcoin')
      rw [← Nat.add_assoc] at hmax
      have hl : ∃ l, collectInputs (index + 1) (total + coin.value.toNat) gs =
          .ok (l, total + coin.value.toNat + coinSum gs) ∧ l.map FundedInput.input = rest :=
        ih hrest hmax
      obtain ⟨l, hl, rfl⟩ := hl
      have hn : addAmount total coin.value = .ok (total + coin.value.toNat) :=
        addAmount_ok.mpr ⟨rfl, by omega⟩
      refine ⟨⟨index, g, i⟩ :: l, ?_, rfl⟩
      simp only [except_bind_ok, mapError_ok, except_pure_ok]
      exact ⟨i, hi, _, hn, _, hl, by rw [Nat.add_assoc]; rfl⟩

variable (b) in
/-- The inputs and outputs of a transaction for the builder, in which what comes in is what is paid,
what is returned and the fee. -/
structure Funding where
  inputs : List Input
  payments : List Output
  changeScript? : Option Script
  change : List Output
  data : List Output
  inputs_ne_nil : inputs ≠ []
  payments_ne_nil : payments ≠ []
  funds : List.Forall₂ BuilderGroup.Funds (b.groups.filter (·.coin.isSome)) inputs
  pays : List.Forall₂ Payment.Pays (b.groups.filterMap (·.payment)) payments
  returnsTo : b.ReturnsTo changeScript?
  carries : List.Forall₂ (fun d o => o.Carries d) b.data data
  coinSum_le : coinSum b.groups ≤ Transaction.maxAmount
  fee_le : b.fee (b.draft inputs payments changeScript? data) ≤ b.settings.maxFee.toNat
  covered : paymentSum b.groups + b.fee (b.draft inputs payments changeScript? data) ≤ coinSum b.groups
  returns : Returns changeScript?
    (coinSum b.groups - (paymentSum b.groups + b.fee (b.draft inputs payments changeScript? data))) change

namespace Funding

def fee (f : b.Funding) : Nat := b.fee (b.draft f.inputs f.payments f.changeScript? f.data)

def transaction (f : b.Funding) : Transaction := b.assemble f.inputs (f.payments ++ f.change ++ f.data)

end Funding

lemma exists_funding {tx : Transaction} (h : b.fund = .ok (tx, l)) :
    l.map FundedInput.group = b.groups.filter (·.coin.isSome) ∧ (∀ f ∈ l, f.group.Funds f.input) ∧
      ∃ f : b.Funding, f.inputs = l.map FundedInput.input ∧ tx = f.transaction := by
  simp only [fund, except_bind_ok, except_unless_bind_ok, except_pure_ok] at h
  obtain ⟨⟨l', totalIn⟩, hl, ⟨payments, totalOut⟩, hp, hl', hp', script?, hscript, data, hdata, n, hn,
    change, hchange, h⟩ := h
  cases h
  obtain ⟨hgroups, hfunds, hin, hmax⟩ := collectInputs_ok hl
  obtain ⟨hpays, hout, -⟩ := (collectPayments_ok (Nat.zero_le _)).mp hp
  rw [Nat.zero_add] at hin hout
  have hmax : totalIn ≤ Transaction.maxAmount := hmax (Nat.zero_le _)
  change totalIn = _ at hin
  subst hin hout
  obtain ⟨hfee, hcovered, rfl⟩ := changeAfter_ok.mp hn
  refine ⟨hgroups, hfunds, ⟨l'.map FundedInput.input, payments, script?, change, data, ?_, ?_, ?_, hpays,
    changeScript?_ok.mp hscript, dataOutputs_ok.mp hdata, hmax, hfee, hcovered,
    (changeOutputs_ok ?_).mp hchange⟩, rfl, rfl⟩
  · simpa using hl'
  · simpa using hp'
  · rw [← hgroups, List.forall₂_map_left_iff, List.forall₂_map_right_iff, List.forall₂_same]
    exact hfunds
  · omega

lemma Funding.exists_fund (f : b.Funding) : ∃ l, b.fund = .ok (f.transaction, l) := by
  obtain ⟨l, hl, hinputs⟩ :=
    @exists_collectInputs b.groups 0 0 _ f.inputs f.funds (by rw [Nat.zero_add]; exact f.coinSum_le)
  have hcovered := f.covered
  have hmax := f.coinSum_le
  have hp : collectPayments 0 0 b.groups = .ok (f.payments, paymentSum b.groups) :=
    (collectPayments_ok (Nat.zero_le _)).mpr ⟨f.pays, by rw [Nat.zero_add], by omega⟩
  have hn := changeAfter_ok.mpr ⟨f.fee_le, f.covered, rfl⟩
  have hchange : changeOutputs f.changeScript? _ = .ok f.change := (changeOutputs_ok (by omega)).mpr f.returns
  have hne : l ≠ [] := by
    rintro rfl
    exact f.inputs_ne_nil hinputs.symm
  refine ⟨l, ?_⟩
  simp only [fund, except_bind_ok, except_unless_bind_ok, except_pure_ok]
  refine ⟨_, hl, _, hp, by simpa using hne, by simpa using f.payments_ne_nil, f.changeScript?,
    changeScript?_ok.mpr f.returnsTo, f.data, dataOutputs_ok.mpr f.carries, _, ?_, f.change, hchange, ?_⟩
  · rw [hinputs, Nat.zero_add]
    exact hn
  · rw [hinputs]
    rfl

end Builder

end BitcoinTx
