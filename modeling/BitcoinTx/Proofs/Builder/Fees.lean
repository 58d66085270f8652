import BitcoinTx.Proofs.Builder.Conservation
import BitcoinTx.Proofs.Builder.Rehydration
import BitcoinTx.Proofs.Transaction.Estimate

/-! The fee that a builder takes at a rate covers the transaction that it signs. -/

namespace BitcoinTx

open Outcome

lemma feeFor_mono {m n : Nat} (rate : UInt64) (h : m ≤ n) : feeFor m rate ≤ feeFor n rate := by
  have hscaled := Nat.mul_le_mul_left rate.toNat h
  rw [feeFor, feeFor]
  omega

namespace Builder

lemma Returns.le_draft {script? : Option Script} {n : Nat} {l : List Output} (h : Returns script? n l) :
    l.length ≤ (script?.map (Output.mk 0)).toList.length ∧
      sumOf Output.size l ≤ sumOf Output.size (script?.map (Output.mk 0)).toList := by
  obtain ⟨-, rfl⟩ | ⟨-, o, rfl, rfl, -⟩ := h
  · exact ⟨Nat.zero_le _, Nat.zero_le _⟩
  · exact ⟨Nat.le_refl _, Nat.le_refl _⟩

/-- Every coin pays to the hash of a key, and is signed by keys in their compressed form. -/
def SpendsKeyHashes (b : Builder) : Prop :=
  ∀ g ∈ b.groups, ∀ coin raw t, g.coin = some coin → coin.lockingScript = .ok raw →
    Template.ofLockingScript raw = .ok t → g.compressed = true ∧ (t.kind = .p2pkh ∨ t.kind = .p2wpkh)

section

variable [Crypto] {b : Builder} {tx tx' : Transaction} {l : List FundedInput}

namespace Funding

variable (f : b.Funding)

def draft : Transaction := b.draft f.inputs f.payments f.changeScript? f.data

lemma estimateSize_le_draft : f.transaction.estimateSize ≤ f.draft.estimateSize := by
  obtain ⟨hlen, hsize⟩ := f.returns.le_draft
  rw [sumOf_eq, sumOf_eq] at hsize
  refine @Transaction.estimateSize_le_of_outputs f.transaction f.draft rfl ?_ ?_
  · simp only [transaction, draft, Builder.draft, assemble, List.length_append]
    omega
  · simp only [transaction, draft, Builder.draft, assemble, sumOf_eq, List.map_append, List.sum_append]
    omega

lemma fee_eq {rate : UInt64} (hrate : b.settings.relayRate = some rate) :
    f.fee = feeFor f.draft.estimateSize rate := by
  rw [fee, Builder.fee, hrate]
  rfl

end Funding

lemma spendsWitnesses_signAll {position : Nat} (htx : tx.SpendsWitnesses)
    (h : signAll tx position l = .ok tx') : tx'.SpendsWitnesses := by
  induction l generalizing tx position with
  | nil =>
    obtain rfl := Except.ok.inj h
    exact htx
  | cons f l ih =>
    simp only [signAll, except_bind_ok, except_unless_bind_ok, mapError_ok] at h
    obtain ⟨-, tx₁, hsign, h⟩ := h
    exact ih (htx.sign hsign) h

lemma spendsWitnesses_build (hsign : b.settings.sign = true) (h : b.build = .ok tx) :
    tx.SpendsWitnesses := by
  simp only [build, except_bind_ok, hsign, if_true] at h
  obtain ⟨⟨tx₀, l⟩, hfund, h⟩ := h
  obtain ⟨-, -, f, -, rfl⟩ := exists_funding hfund
  refine spendsWitnesses_signAll ?_ h
  rw [← f.bare]
  exact f.transaction.spendsWitnesses_bare

lemma withinEstimate_build (hsign : b.settings.sign = true) (hcoins : b.SpendsKeyHashes)
    (h : b.build = .ok tx) : ∀ i ∈ tx.inputs, i.WithinEstimate := by
  obtain ⟨l, -, hgroups, hfunds, hbare, hsigned⟩ := build_ok hsign h
  intro i hi
  obtain ⟨k, hk⟩ := List.mem_iff_getElem?.mp hi
  obtain ⟨f, hf, hbare⟩ : ∃ f, l[k]? = some f ∧ f.input.bare = i.bare := by
    simpa [hk] using (congrArg (·[k]?) hbare).symm
  obtain ⟨coin, hcoin, hfund⟩ := hfunds f (List.mem_of_getElem? hf)
  obtain ⟨s, hs, hinput⟩ := except_map_ok.mp hfund
  obtain ⟨raw, t, _, _, hraw, ht, -, -, rfl⟩ := SpentOutput.ofCoin_ok.mp hs
  have hgroup : f.group ∈ b.groups.filter (·.coin.isSome) :=
    hgroups ▸ List.mem_map_of_mem (List.mem_of_getElem? hf)
  obtain ⟨hcompressed, hkind⟩ := hcoins _ (List.mem_of_mem_filter hgroup) coin raw t hcoin hraw ht
  refine (hsigned k f hf).withinEstimate ?_ ?_ hs hkind hcompressed ?_
  · rw [Transaction.input, hk]
  · rw [← hinput] at hbare
    exact (congrArg Input.spent hbare).symm
  · exact spendsWitnesses_build hsign h i hi

/-- The fee was taken for the draft, which is estimated to be no smaller than what is signed turns out to be,
whatever the signatures are. -/
theorem build_fee_covers {rate : UInt64} (hsign : b.settings.sign = true)
    (hrate : b.settings.relayRate = some rate) (hcoins : b.SpendsKeyHashes) (h : b.build = .ok tx) :
    ∃ f : b.Funding, tx.bare = f.transaction ∧ tx.virtualSize ≤ f.draft.estimateSize ∧
      tx.totalInput = .ok (tx.totalOutput + f.fee) ∧ f.fee = feeFor f.draft.estimateSize rate ∧
        feeFor tx.virtualSize rate ≤ f.fee := by
  obtain ⟨f, hf⟩ := build_bare h
  have hsize : tx.virtualSize ≤ f.draft.estimateSize := calc
    tx.virtualSize ≤ tx.estimateSize :=
      Transaction.virtualSize_le_estimateSize (withinEstimate_build hsign hcoins h)
    _ = f.transaction.estimateSize := by rw [← hf, Transaction.estimateSize_bare]
    _ ≤ f.draft.estimateSize := f.estimateSize_le_draft
  have hout : tx.totalOutput = f.transaction.totalOutput := (congrArg Transaction.totalOutput hf :)
  refine ⟨f, hf, hsize, ?_, f.fee_eq hrate, ?_⟩
  · rw [← Transaction.totalInput_bare, hf, f.totalInput, hout, f.totalOutput_add_fee]
  · rw [f.fee_eq hrate]
    exact feeFor_mono rate hsize

end

end Builder

def keyHashCoin : Coin := ⟨⟨.zero, 1⟩, 5000, "76a91406afd46bcdfd22ef94ac122aa11f241244a37ecc88ac"⟩

def spendKeyHash : BuilderGroup where
  coin := some keyHashCoin
  keys := [.two]

def spendByKeys : Builder where
  settings := { relayRate := some 1500 }
  earlier := [spendGenerator]
  current := spendKeyHash
  change := some (Address.ofKeyHash (.zero 20) .mainnet)
  data := [⟨#[0x01, 0x02]⟩]

def recordedSignature (k : SecretKey) : Signature :=
  if k = .one then
    { r := .ofNat 32 0x57cdfc31db34f6677e13f8d1f749703235fcd091e37f0b34a318be5460910c69
      s := .ofNat 32 0x051579f429c56fbb820fc6aea3006f9cbb89b6595512ca6a253c20817f72880c }
  else
    { r := .ofNat 32 0x518ac020c14aee5c134a415f497f0c0b09aafc8a27668cf312b627ca029dfc2c
      s := .ofNat 32 0x3430f4515b8baf487a29d44aa720f8946b7e9b0a1afa2cfe56302e3250792f6a }

/-- Bitcoin's choice, with the signatures that it makes for `spendByKeys` written down. -/
@[reducible] def Crypto.recorded : Crypto :=
  { Crypto.bitcoin with
    sign := fun k _ => some (recordedSignature k)
    sign_s_lt := by
      intro k _ sig h
      obtain rfl := Option.some.inj h
      rw [recordedSignature]
      split <;> decide +kernel }

lemma Coin.kind_eq {coin : Coin} {raw : Script} {t : Template} {kind : AddressKind}
    (h : (coin.lockingScript >>= Template.ofLockingScript).map Template.kind = .ok kind)
    (hraw : coin.lockingScript = .ok raw) (ht : Template.ofLockingScript raw = .ok t) :
    t.kind = kind := by
  rw [hraw, except_ok_bind, ht] at h
  exact Except.ok.inj h

lemma spendsKeyHashes_spendByKeys : spendByKeys.SpendsKeyHashes := by
  intro g hg coin raw t hcoin hraw ht
  obtain rfl | rfl : g = spendGenerator ∨ g = spendKeyHash := by
    simpa [Builder.groups, spendByKeys] using hg
  · obtain rfl := Option.some.inj hcoin
    exact ⟨rfl, .inr (Coin.kind_eq (by decide +kernel) hraw ht)⟩
  · obtain rfl := Option.some.inj hcoin
    exact ⟨rfl, .inl (Coin.kind_eq (by decide +kernel) hraw ht)⟩

theorem build_fee_covers_spendByKeys :
    ∃ tx, @Builder.build Crypto.recorded spendByKeys = .ok tx ∧
      ∃ f : @Builder.Funding spendByKeys Crypto.recorded,
        tx.virtualSize ≤ (@Builder.Funding.draft Crypto.recorded _ f).estimateSize ∧
          tx.totalInput = .ok (tx.totalOutput + @Builder.Funding.fee spendByKeys Crypto.recorded f) ∧
            feeFor tx.virtualSize 1500 ≤ @Builder.Funding.fee spendByKeys Crypto.recorded f := by
  obtain ⟨tx, hb⟩ : ∃ tx, @Builder.build Crypto.recorded spendByKeys = .ok tx :=
    except_isOk.mp (by decide +kernel)
  obtain ⟨f, -, hsize, htotal, -, hfee⟩ :=
    @Builder.build_fee_covers Crypto.recorded _ tx 1500 rfl rfl spendsKeyHashes_spendByKeys hb
  exact ⟨tx, hb, f, hsize, htotal, hfee⟩

end BitcoinTx
