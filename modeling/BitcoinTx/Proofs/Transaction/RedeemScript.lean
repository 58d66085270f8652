import BitcoinTx.Proofs.Transaction.WitnessScript

/-! The script that a coin pays to the hash of comes up twice: with the coin data, where it is signed, and
in the unlocking script, where it is run. -/

namespace BitcoinTx

open Outcome Instruction

section

variable [Crypto]

section

variable {s : SpentOutput} {coin : Coin} {redeem : Option Script} {raw : Script} {h : Hash160}

lemma SpentOutput.ofCoin_p2sh (hcoin : ofCoin coin redeem = .ok s)
    (hraw : coin.lockingScript = .ok raw) (hp : Template.ofLockingScript raw = .ok (.p2sh h)) :
    s.version = .base ∧ s.finalLocking = .p2sh h ∧ s.redeem = redeem := by
  obtain ⟨raw', t, locking, code, hraw', ht, hlocking, -, rfl⟩ := ofCoin_ok.mp hcoin
  obtain rfl := Except.ok.inj (hraw.symm.trans hraw')
  obtain rfl := Except.ok.inj (hp.symm.trans ht)
  obtain rfl := Except.ok.inj hlocking
  exact ⟨rfl, rfl, rfl⟩

variable {i : Input} {l : List Instruction} {last : Instruction}

omit [Crypto] in
lemma Input.redeem?_p2sh (hl : i.unlocking.instructions = .ok (l ++ [last])) (hlast : last.IsPush) :
    i.redeem? (.p2sh h) = .ok (some ⟨last.content⟩) := by
  rw [redeem?, hl]
  change Except.ok _ = _
  rw [List.getLast?_concat, Option.filter_some, if_pos (decide_eq_true hlast), Option.map_some]

lemma Input.spentOf_p2sh (hs : i.spentOf coin none = .ok s) (hraw : coin.lockingScript = .ok raw)
    (hp : Template.ofLockingScript raw = .ok (.p2sh h))
    (hl : i.unlocking.instructions = .ok (l ++ [last])) (hlast : last.IsPush) :
    s.redeem = some ⟨last.content⟩ := by
  obtain ⟨found, hfound, hcoin⟩ := except_bind_ok.mp hs
  have hfind : i.findRedeem coin none = .ok (some ⟨last.content⟩) := by
    rw [findRedeem, hraw, except_ok_bind, hp, except_ok_bind, redeem?_p2sh hl hlast]
  obtain rfl := Except.ok.inj (hfind.symm.trans hfound)
  exact (SpentOutput.ofCoin_p2sh hcoin hraw hp).2.2

end

namespace Transaction

variable {tx : Transaction} {mid : Midstate} {index : Nat} {i : Input} {s : SpentOutput} {coin : Coin}
  {redeem : Option Script} {raw : Script} {h : Hash160}

lemma legacyDigest_redeem {known : Script} {t : HashType} (hs : tx.spent index = .ok s)
    (hknown : s.redeem = some known) (ht : ¬ (t.base = .single ∧ tx.outputs.length ≤ index)) :
    tx.legacyDigest index t = .ok (sha256d (tx.legacyPreimage index known t)) := by
  rw [legacyDigest, hs, except_ok_bind, if_neg ht, SpentOutput.legacyCode, hknown]
  rfl

/-- A verified input whose coin pays to the hash `h` of a script only pushes, and the script that it runs
is the last item that it pushes, which has this hash. A redeem script that is given with the coin is kept
as it is, and what is kept is signed. It is the script that runs when it was found in the same unlocking
script, or when it has the hash `h` and the two do not collide. -/
theorem verifyInputWith_p2sh (hi : tx.input index = .ok i) (hs : i.spent = some s)
    (hcoin : s.IsOf coin redeem) (hraw : coin.lockingScript = .ok raw)
    (hp : Template.ofLockingScript raw = .ok (.p2sh h)) (hv : tx.verifyInputWith mid index = .ok ()) :
    ∃ l below executed t, i.unlocking.instructions = .ok l ∧ (∀ j ∈ l, j.IsPush) ∧
      l.map item = below ++ [executed] ∧ hash160 executed = h ∧
      (tx.evaluatorWith mid .base index).Takes ⟨executed⟩ (Stack.ofItems below) t ∧ t.TopTrue ∧
      (∀ given, redeem = some given → s.redeem = some given) ∧
      (∀ j : Input, j.unlocking = i.unlocking → j.spentOf coin none = .ok s →
        s.redeem = some ⟨executed⟩) ∧
      ∀ known, s.redeem = some known →
        (∀ t : HashType, ¬ (t.base = .single ∧ tx.outputs.length ≤ index) →
          tx.legacyDigest index t = .ok (sha256d (tx.legacyPreimage index known t))) ∧
        ((hash160 known.bytes = hash160 executed → known.bytes = executed) →
          (known.bytes = executed ↔ hash160 known.bytes = h)) := by
  obtain ⟨found, hcoin, hgiven⟩ := hcoin.exists_ofCoin
  obtain ⟨hversion, hlocking, hredeem⟩ := SpentOutput.ofCoin_p2sh hcoin hraw hp
  obtain ⟨i', s', u, m, hi', hs', hu, hrun⟩ := verifyInputWith_ok.mp hv
  obtain rfl := Except.ok.inj (hi.symm.trans hi')
  obtain rfl := Option.some.inj (hs.symm.trans hs')
  rw [hversion] at hu hrun
  obtain rfl := Except.ok.inj hu
  rw [hlocking] at hrun
  obtain ⟨l, hl, hpush, executed, rest, t, hitems, rfl, htakes, htop⟩ :=
    Evaluator.redeem_of_verify hrun
  have hspent : tx.spent index = .ok s := spent_ok.mpr ⟨i, hi, hs⟩
  have hmap : l.map item = rest.reverse ++ [executed] := by
    rw [← List.reverse_cons, ← hitems, Stack.ofItems, List.reverse_reverse]
  refine ⟨l, rest.reverse, executed, t, hl, hpush, hmap, rfl, ?_, htop,
    fun given hg => hredeem.trans (hgiven given hg), fun j hj hfound => ?_, fun known hknown =>
    ⟨fun t ht => legacyDigest_redeem hspent hknown ht, fun hinj => ⟨fun heq => heq ▸ rfl, hinj⟩⟩⟩
  · rwa [Stack.ofItems, List.reverse_reverse]
  · -- the last item is what the last instruction holds, or it would not have run
    obtain ⟨first, last', rfl, -, hlast⟩ := List.map_eq_append_iff.mp hmap
    obtain ⟨last, rfl, rfl⟩ := List.map_eq_singleton_iff.mp hlast
    have hmem : last ∈ first ++ [last] := List.mem_append_right first List.mem_cons_self
    have hcontent := Evaluator.content_eq_of_takes_item (hpush last hmem)
      ((Script.instructions_ok_iff.mp hl).1 last hmem) htakes
    rw [← hcontent]
    exact Input.spentOf_p2sh hfound hraw hp (hj ▸ hl) (hpush last hmem)

end Transaction

end

def equalHash : Hash160 := .ofNat 20 0x01b084353e301dad11492341307598f6822fd0c3

def equalHashCoin : Coin := ⟨⟨.zero, 0⟩, 1000, "a91401b084353e301dad11492341307598f6822fd0c387"⟩

def equalHashSpent : SpentOutput where
  value := 1000
  template := .p2sh equalHash
  rawLocking := .p2sh equalHash
  finalLocking := .p2sh equalHash
  redeem := some equalScript
  scriptCode := none

def equalHashInput : Input where
  outpoint := ⟨.zero, 0⟩
  sequence := 0
  unlocking := ⟨[Opcode.one, 0x02, Opcode.one, Opcode.equal]⟩
  witness := []
  spent := some equalHashSpent

def equalHashSpend : Transaction := { Transaction.empty with inputs := [equalHashInput] }

theorem verifyInputWith_p2sh_equalHashSpend :
    @Transaction.verifyInput Crypto.bitcoin equalHashSpend 0 = .ok () ∧
      ∃ l below executed, equalHashInput.unlocking.instructions = .ok l ∧
        l.map item = below ++ [executed] ∧ @hash160 Crypto.bitcoin executed = equalHash ∧
        equalHashSpent.redeem = some ⟨executed⟩ := by
  have hv : @Transaction.verifyInput Crypto.bitcoin equalHashSpend 0 = .ok () := by decide +kernel
  have hfound : @Input.spentOf Crypto.bitcoin equalHashInput equalHashCoin none =
      .ok equalHashSpent := by decide +kernel
  obtain ⟨l, below, executed, t, hl, -, hmap, hhash, -, -, -, hrecovered, -⟩ :=
    @Transaction.verifyInputWith_p2sh Crypto.bitcoin equalHashSpend _ 0 equalHashInput equalHashSpent
      equalHashCoin none (.p2sh equalHash) equalHash rfl rfl (.inr ⟨equalHashInput, hfound⟩)
      (by decide +kernel) (by decide +kernel) hv
  exact ⟨hv, l, below, executed, hl, hmap, hhash, hrecovered equalHashInput rfl hfound⟩

def keyScript : Script :=
  ⟨encodeAll [pushing (Secp256k1.generator.compressed).val, op Opcode.checkSig]⟩

def keyScriptHash : Hash160 := .ofNat 20 0x23b0ad3477f2178bc0b3eed26e4e6316f4e83aa1

def keyScriptCoin : Coin := ⟨⟨.zero, 0⟩, 1000, "a91423b0ad3477f2178bc0b3eed26e4e6316f4e83aa187"⟩

def strangeSpent : SpentOutput where
  value := 1000
  template := .p2sh keyScriptHash
  rawLocking := .p2sh keyScriptHash
  finalLocking := .p2sh keyScriptHash
  redeem := some ⟨[Opcode.one]⟩
  scriptCode := none

def strangeSignature : Bytes :=
  Signature.encode
    { r := .ofNat 32 0x2409b1618dc622485e85216b8b03f3092ae61b746f14eba9285466182624647d
      s := .ofNat 32 0x5ae6377e79195e2b405a9f9cb62f90b3863738c694bf51e90de25525730551aa } ++ [1]

def strangeInput : Input where
  outpoint := ⟨.zero, 0⟩
  sequence := Input.finalSequence
  unlocking := ⟨encodeAll ([strangeSignature, keyScript.bytes].map pushing)⟩
  witness := []
  spent := some strangeSpent

def strangeSpend : Transaction :=
  { Transaction.empty with inputs := [strangeInput], outputs := [⟨900, ⟨[Opcode.one]⟩⟩] }

/-- A redeem script that does not have the hash of the coin is signed in place of the one that runs. -/
theorem verifyInput_p2sh_strangeSpend :
    @SpentOutput.ofCoin Crypto.bitcoin keyScriptCoin (some ⟨[Opcode.one]⟩) = .ok strangeSpent ∧
      @Transaction.verifyInput Crypto.bitcoin strangeSpend 0 = .ok () ∧
      ∃ l, strangeInput.unlocking.instructions = .ok l ∧
        l.map item = [strangeSignature, keyScript.bytes] ∧
        ∃ known, strangeSpent.redeem = some known ∧ known ≠ keyScript := by
  have hsmall : ∀ x ∈ [strangeSignature, keyScript.bytes], x.length < 2 ^ 32 := by decide +kernel
  exact ⟨by decide +kernel, by decide +kernel, _, Script.instructions_pushing hsmall,
    map_item_pushing hsmall, _, rfl, by decide +kernel⟩

end BitcoinTx
