import BitcoinTx.Proofs.Bytes.Digits
import BitcoinTx.Proofs.Eval.Outcome
import BitcoinTx.Proofs.Text.Ascii
import BitcoinTx.Text.Base58

/-! Base58 text and byte strings determine each other: what is written is read back, and what is read
is written as the same text. -/

namespace BitcoinTx.Base58

variable {b : Bytes} {ds : List Nat}

def toSymbols (b : Bytes) : List Nat :=
  let bs := b.map UInt8.toNat
  padded 58 (leadingZeros bs) (ofDigits 256 bs.reverse)

lemma beValue_eq_ofDigits (b : Bytes) : beValue b = ofDigits 256 (b.map UInt8.toNat).reverse := by
  rw [beValue, ← List.map_reverse]
  induction b.reverse with
  | nil => rfl
  | cons x xs ih => rw [leValue, ih, List.map_cons, ofDigits, ofDigits, List.foldr_cons]

lemma leadingZeros_map_toNat (b : Bytes) :
    leadingZeros (b.map UInt8.toNat) = (b.takeWhile (· = 0)).length := by
  rw [leadingZeros, List.takeWhile_map, List.length_map]
  refine congrArg (fun p => (b.takeWhile p).length) (funext fun x => ?_)
  exact decide_eq_decide.mpr (UInt8.toNat_inj (b := 0))

lemma encode_eq (b : Bytes) :
    encode b = String.ofList ((toSymbols b).map (alphabet.getD · '1')) := by
  simp only [encode, toSymbols, padded, leadingZeros_map_toNat, beValue_eq_ofDigits]

lemma map_toNat_ofSymbols (ds : List Nat) :
    (ofSymbols ds).map UInt8.toNat = padded 256 (leadingZeros ds) (ofDigits 58 ds.reverse) := by
  have hds : ofSymbols ds =
      (padded 256 (leadingZeros ds) (ofDigits 58 ds.reverse)).map UInt8.ofNat := by
    simp [ofSymbols, padded, leadingZeros, List.map_append, List.map_reverse]
  rw [hds, List.map_map]
  refine (List.map_congr_left fun d hd => ?_).trans (List.map_id _)
  exact UInt8.toNat_ofNat_of_lt (lt_of_mem_padded (by decide) hd)

lemma ofSymbols_toSymbols (b : Bytes) : ofSymbols (toSymbols b) = b := by
  have hbytes : ∀ d ∈ b.map UInt8.toNat, d < 256 :=
    List.forall_mem_map.mpr fun x _ => x.toNat_lt
  refine List.map_injective_iff.mpr (fun _ _ => UInt8.toNat_inj.mp) ?_
  rw [map_toNat_ofSymbols, toSymbols, leadingZeros_padded (by decide), ofDigits_padded (by decide),
    padded_leadingZeros (by decide) hbytes]

lemma toSymbols_ofSymbols (h : ∀ d ∈ ds, d < 58) : toSymbols (ofSymbols ds) = ds := by
  rw [toSymbols, map_toNat_ofSymbols, leadingZeros_padded (by decide), ofDigits_padded (by decide),
    padded_leadingZeros (by decide) h]

lemma lt_of_mem_toSymbols {d : Nat} (h : d ∈ toSymbols b) : d < 58 :=
  lt_of_mem_padded (by decide) h

def symbolByte (d : Nat) : UInt8 := (alphabet.getD d '1').toUInt8

lemma symbolByte_spec :
    ∀ d < 58, (alphabet.getD d '1').toNat < 128 ∧ ¬ 127 < symbolByte d ∧
      symbol? (symbolByte d) = some d := by
  decide

lemma symbol?_spec {c : UInt8} {d : Nat} (hc : ¬ 127 < c) (h : symbol? c = some d) :
    d < 58 ∧ symbolByte d = c := by
  obtain ⟨hd, hchar⟩ := getD_of_idxOf? h '1'
  have hascii : c.toNat < 128 := Nat.lt_succ_of_le (Nat.le_of_not_lt hc)
  rw [symbolByte, hchar, Utf8.toUInt8_ofNat hascii]
  exact ⟨hd, rfl⟩

lemma symbols_cons_eq_ok {index : Nat} {c : UInt8} :
    symbols index (c :: b) = .ok ds ↔
      ∃ d ds', ¬ 127 < c ∧ symbol? c = some d ∧ symbols (index + 1) b = .ok ds' ∧ d :: ds' = ds := by
  rw [symbols, Outcome.except_unless_bind_ok]
  cases symbol? c with
  | none => simp [throw, throwThe, MonadExceptOf.throw]
  | some d =>
    simp only [Outcome.except_bind_ok, Outcome.except_pure_ok]
    simp

lemma symbols_map_symbolByte (index : Nat) (h : ∀ d ∈ ds, d < 58) :
    symbols index (ds.map symbolByte) = .ok ds := by
  induction ds generalizing index with
  | nil => rfl
  | cons d ds ih =>
    obtain ⟨hd, hds⟩ := List.forall_mem_cons.mp h
    obtain ⟨-, hascii, hsymbol⟩ := symbolByte_spec d hd
    exact symbols_cons_eq_ok.mpr ⟨d, ds, hascii, hsymbol, ih (index + 1) hds, rfl⟩

lemma of_symbols_ok {index : Nat} (h : symbols index b = .ok ds) :
    (∀ d ∈ ds, d < 58) ∧ ds.map symbolByte = b := by
  induction b generalizing index ds with
  | nil =>
    cases h
    exact ⟨by simp, rfl⟩
  | cons c cs ih =>
    obtain ⟨d, rest, hascii, hsymbol, hrest, rfl⟩ := symbols_cons_eq_ok.mp h
    obtain ⟨hd, hbyte⟩ := symbol?_spec hascii hsymbol
    obtain ⟨hds, hbytes⟩ := ih hrest
    exact ⟨List.forall_mem_cons.mpr ⟨hd, hds⟩, by rw [List.map_cons, hbyte, hbytes]⟩

lemma utf8_encode (b : Bytes) : Utf8.encode (encode b) = (toSymbols b).map symbolByte := by
  rw [encode_eq, Utf8.encode_ofList, List.map_map]
  · rfl
  · exact List.forall_mem_map.mpr fun d hd => (symbolByte_spec d (lt_of_mem_toSymbols hd)).1

theorem decode_encode (b : Bytes) : decode (encode b) = .ok b := by
  rw [decode, utf8_encode, symbols_map_symbolByte 0 fun d hd => lt_of_mem_toSymbols hd]
  exact congrArg Except.ok (ofSymbols_toSymbols b)

theorem encode_of_decode {text : String} (h : decode text = .ok b) : encode b = text := by
  rw [decode, Outcome.except_map_ok] at h
  obtain ⟨ds, hds, rfl⟩ := h
  obtain ⟨hlt, hbytes⟩ := of_symbols_ok hds
  refine Utf8.encode_inj ?_
  rw [utf8_encode, toSymbols_ofSymbols hlt, hbytes]

end BitcoinTx.Base58
