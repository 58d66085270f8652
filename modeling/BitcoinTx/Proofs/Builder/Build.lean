import BitcoinTx.Proofs.Builder.Funding
import BitcoinTx.Proofs.Transaction.Spending

/-! The transactions that builders build verify. -/

namespace BitcoinTx

open Outcome

section

variable [Crypto]

def BuilderGroup.signer (g : BuilderGroup) : Signer :=
  { keys := g.keys, compressed := g.compressed, hashType := ⟨g.hashType⟩ }

namespace Builder

variable {b : Builder} {tx tx' : Transaction} {l : List FundedInput}

lemma fund_ok (h : b.fund = .ok (tx, l)) : tx.inputs = l.map FundedInput.input ∧
    ∀ f ∈ l, f.group ∈ b.groups ∧ ∃ coin s, f.group.coin = some coin ∧
      SpentOutput.ofCoin coin f.group.redeem = .ok s ∧ f.input.spent = some s := by
  obtain ⟨hgroups, hfunds, funding, hinputs, rfl⟩ := exists_funding h
  refine ⟨hinputs, fun f hf => ?_⟩
  have hgroup : f.group ∈ l.map FundedInput.group := List.mem_map_of_mem hf
  rw [hgroups] at hgroup
  obtain ⟨coin, hcoin, hi⟩ := hfunds f hf
  obtain ⟨s, hs, hi⟩ := except_map_ok.mp hi
  exact ⟨List.mem_of_mem_filter hgroup, coin, s, hcoin, hs, by rw [← hi]⟩

lemma signAll_ok {position : Nat} (h : signAll tx position l = .ok tx') :
    tx'.bare = tx.bare ∧ (∀ j < position, tx'.input j = tx.input j) ∧
      ∀ k f, l[k]? = some f → tx'.SignedBy (position + k) f.group.signer := by
  induction l generalizing tx position with
  | nil =>
    obtain rfl := Except.ok.inj h
    exact ⟨rfl, fun _ _ => rfl, fun k f hk => by simp at hk⟩
  | cons f l ih =>
    simp only [signAll, except_bind_ok, except_unless_bind_ok, mapError_ok] at h
    obtain ⟨-, tx₁, hsign, h⟩ := h
    obtain ⟨hsigned, hbare, hother⟩ := Transaction.sign_ok hsign
    obtain ⟨hbare', hbefore, hrest⟩ := ih h
    refine ⟨hbare'.trans hbare, fun j hj => ?_, fun k g hk => ?_⟩
    · rw [hbefore j (by omega), hother j (by omega)]
    · cases k with
      | zero =>
        obtain rfl := Option.some.inj hk
        exact hsigned.congr hbare' (hbefore position (by omega))
      | succ k =>
        have hk := hrest k g hk
        rwa [Nat.add_right_comm] at hk

theorem build_verify (hc : Crypto.Correct) (hsign : b.settings.sign = true)
    (hgroups : ∀ g ∈ b.groups, ∀ coin, g.coin = some coin →
      g.hashType ≤ 0xff ∧ g.signer.CanSpend coin g.redeem)
    (h : b.build = .ok tx) : tx.verify = .ok () := by
  simp only [build, except_bind_ok, hsign, if_true] at h
  obtain ⟨⟨tx₀, l⟩, hfund, h⟩ := h
  obtain ⟨hinputs, hfunded⟩ := fund_ok hfund
  obtain ⟨hbare, -, hsigned⟩ := signAll_ok h
  have hlength : tx.inputs.length = l.length := by
    have := congrArg (List.length ∘ Transaction.inputs) hbare
    simpa [Transaction.bare, hinputs] using this
  refine forM_ok.mpr fun index hindex => ?_
  rw [List.mem_range, hlength] at hindex
  have hl := List.getElem?_eq_getElem hindex
  obtain ⟨hgroup, coin, s, hcoin, hs, hspent⟩ := hfunded _ (List.getElem_mem hindex)
  obtain ⟨hword, hspend⟩ := hgroups _ hgroup coin hcoin
  -- signing leaves the coin of every input as it was funded
  have hstored : tx.spent index = .ok s := by
    rw [← Transaction.spent_bare, hbare, Transaction.spent_bare]
    refine Transaction.spent_ok.mpr ⟨l[index].input, ?_, hspent⟩
    simp [Transaction.input, hinputs, hl]
  have hsigned := hsigned index _ hl
  rw [Nat.zero_add] at hsigned
  exact hsigned.verifyInput hc hword hstored hs hspend

end Builder

end

namespace Secp256k1

def Point.Readable (q : Point) : Prop :=
  ofBytes? q.compressed.val = some q ∧ ofBytes? q.uncompressed.val = some q

instance (q : Point) : Decidable q.Readable :=
  inferInstanceAs (Decidable (_ ∧ _))

lemma readable_generator : generator.Readable := by decide +kernel

def readable? (b : Bytes) : Option { q : Point // q.Readable } :=
  (Point.ofBytes? b).bind fun q => if h : q.Readable then some ⟨q, h⟩ else none

lemma readable?_of_ofBytes? {b : Bytes} {q : { q : Point // q.Readable }}
    (h : Point.ofBytes? b = some q.val) : readable? b = some q := by
  rw [readable?, h]
  exact dif_pos q.property

def readableKey (k : SecretKey) : { q : Point // q.Readable } :=
  match publicPoint? k.toNat with
  | none => ⟨generator, readable_generator⟩
  | some q => if h : q.Readable then ⟨q, h⟩ else ⟨generator, readable_generator⟩

end Secp256k1

open Secp256k1

/-- Bitcoin's choice, less the points that are not read back and the signatures that do not pass.
That there are neither takes the theory of the curve. -/
@[reducible] def Crypto.checked : Crypto where
  sha256 := Sha256.hash
  ripemd160 := Ripemd160.hash
  PublicKey := { q : Point // q.Readable }
  parse? := readable?
  compressed q := q.val.compressed
  uncompressed q := q.val.uncompressed
  publicKey := readableKey
  sign k d := (Secp256k1.sign k d).filter fun sig =>
    Secp256k1.verify (readableKey k).val d sig.normalize
  verify q d sig := Secp256k1.verify q.val d sig
  sign_s_lt h := Secp256k1.sign_s_lt (Option.eq_some_of_filter_eq_some h)

lemma Crypto.checked_correct : @Crypto.Correct Crypto.checked := by
  apply @Crypto.correct_of_parameters Crypto.checked
  · intro k d sig h
    exact (Option.filter_eq_some_iff.mp h).2
  · intro k
    exact readable?_of_ofBytes? k.property.1
  · intro k
    exact readable?_of_ofBytes? k.property.2

def SecretKey.one : SecretKey := ⟨.ofNat 32 1, by decide⟩

def SecretKey.two : SecretKey := ⟨.ofNat 32 2, by decide⟩

def eitherScript : Script :=
  ⟨[Opcode.one] ++ varBytes (readableKey .one).val.compressed.val ++
    varBytes (readableKey .two).val.uncompressed.val ++ [0x52, Opcode.checkMultiSig]⟩

def generatorCoin : Coin := ⟨⟨.zero, 0⟩, 1000, "0014751e76e8199196d454941c45d1b3a323f1433bd6"⟩

def eitherCoin : Coin := ⟨⟨.zero, 1⟩, 2000, "a914457b1938e89233724ea228050cb598c1d1f96da787"⟩

def spendGenerator : BuilderGroup where
  coin := some generatorCoin
  keys := [.one]
  payment := some ⟨.script "51", 3000⟩

/-- The hash type asks for the output with the number of the input, and there is none. -/
def spendEither : BuilderGroup where
  coin := some eitherCoin
  keys := [.two]
  hashType := 3
  redeem := some eitherScript

def spendBoth : Builder where
  earlier := [spendGenerator]
  current := spendEither

lemma canSpend_generatorCoin :
    @Signer.CanSpend Crypto.checked spendGenerator.signer generatorCoin none :=
  @Signer.CanSpend.key Crypto.checked _ _ .one _ rfl (.inr rfl) (by decide +kernel)

lemma canSpend_eitherCoin :
    @Signer.CanSpend Crypto.checked spendEither.signer eitherCoin (some eitherScript) :=
  @Signer.CanSpend.multisig Crypto.checked _ _
    [(readableKey .one).val.compressed.val, (readableKey .two).val.uncompressed.val] _ _
    (by decide +kernel) (by decide) (.cons_right (.cons ⟨false, rfl⟩ .nil)) (.inl rfl)
    (by decide +kernel)

theorem build_verify_spendBoth :
    ∃ tx, @Builder.build Crypto.checked spendBoth = .ok tx ∧
      @Transaction.verify Crypto.checked tx = .ok () := by
  obtain ⟨tx, hb⟩ : ∃ tx, @Builder.build Crypto.checked spendBoth = .ok tx :=
    except_isOk.mp (by decide +kernel)
  refine ⟨tx, hb, @Builder.build_verify Crypto.checked spendBoth tx Crypto.checked_correct rfl ?_ hb⟩
  intro g hg coin hcoin
  obtain rfl | rfl : g = spendGenerator ∨ g = spendEither := by
    simpa [Builder.groups, spendBoth] using hg
  · obtain rfl := Option.some.inj hcoin
    exact ⟨by decide, canSpend_generatorCoin⟩
  · obtain rfl := Option.some.inj hcoin
    exact ⟨by decide, canSpend_eitherCoin⟩

end BitcoinTx
