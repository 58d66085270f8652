import BitcoinTx.Proofs.Bytes.Bits
import BitcoinTx.Proofs.Text.Ascii
import BitcoinTx.Proofs.Text.Bech32Checksum

/-! Witness programs and their text determine each other, up to the case of the letters. -/

namespace BitcoinTx.Bech32

variable {b hrp data : Bytes} {ds : List Nat} {s : SegwitProgram} {text : String}

def symbolByte (d : Nat) : UInt8 := alphabet.getD d 0

lemma symbolByte_spec :
    ∀ d < 32, alphabet.idxOf? (symbolByte d) = some d ∧ symbolByte d ≠ 0x31 ∧
      (symbolByte d).toNat < 128 ∧ ¬ isUpper (symbolByte d) := by
  decide +kernel

lemma idxOf?_spec {c : UInt8} {d : Nat} (h : alphabet.idxOf? c = some d) :
    d < 32 ∧ symbolByte d = c := getD_of_idxOf? h 0

lemma mapM_idxOf?_eq_some :
    data.mapM (alphabet.idxOf? ·) = some ds ↔ (∀ d ∈ ds, d < 32) ∧ ds.map symbolByte = data := by
  constructor
  · intro h
    induction data generalizing ds with
    | nil =>
      rw [List.mapM_nil] at h
      cases h
      exact ⟨by simp, rfl⟩
    | cons c data ih =>
      simp only [List.mapM_cons, Option.bind_eq_bind, Option.bind_eq_some_iff, Option.pure_def,
        Option.some.injEq] at h
      obtain ⟨d, hd, rest, hrest, rfl⟩ := h
      obtain ⟨hlt, hbyte⟩ := idxOf?_spec hd
      obtain ⟨hall, hbytes⟩ := ih hrest
      exact ⟨List.forall_mem_cons.mpr ⟨hlt, hall⟩, by rw [List.map_cons, hbyte, hbytes]⟩
  · rintro ⟨h, rfl⟩
    induction ds with
    | nil => rfl
    | cons d ds ih =>
      obtain ⟨hd, hds⟩ := List.forall_mem_cons.mp h
      simp [(symbolByte_spec d hd).1, ih hds]

lemma splitLast?_append (h : 0x31 ∉ data) : splitLast? (hrp ++ 0x31 :: data) = some (hrp, data) := by
  have hne : ∀ c ∈ data.reverse, decide (c ≠ 0x31) = true := by
    intro c hc
    exact decide_eq_true fun hc' => h (hc' ▸ List.mem_reverse.mp hc)
  have hreverse : (hrp ++ 0x31 :: data).reverse = data.reverse ++ 0x31 :: hrp.reverse := by simp
  rw [splitLast?, hreverse, List.dropWhile_append_of_pos hne, List.takeWhile_append_of_pos hne]
  simp

lemma of_splitLast?_eq_some (h : splitLast? b = some (hrp, data)) : b = hrp ++ 0x31 :: data := by
  rw [splitLast?] at h
  split at h
  · contradiction
  next x rest hdrop =>
    cases h
    have hx : x = 0x31 := by
      have hhead := List.head?_dropWhile_not (fun c => decide (c ≠ 0x31)) b.reverse
      rw [hdrop] at hhead
      simpa using hhead
    have hsplit : b.reverse = b.reverse.takeWhile (· ≠ 0x31) ++ 0x31 :: rest := by
      conv_lhs => rw [← List.takeWhile_append_dropWhile (p := (· ≠ 0x31)) (l := b.reverse)]
      rw [hdrop, hx]
    refine List.reverse_inj.mp (hsplit.trans ?_)
    simp

def Mixed (b : Bytes) : Prop := b.any isUpper ∧ b.any isLower

lemma unless_bind_eq_some {α β : Type} {p : Prop} [Decidable p] {f : α → Option β} {x : Option β}
    {y : β} : (if p then Option.bind none f else x) = some y ↔ ¬ p ∧ x = some y := by
  split <;> simp [*]

lemma decode_stages :
    decode text = some s ↔
      ¬ (90 < (Utf8.encode text).length ∨ Mixed (Utf8.encode text)) ∧
      ∃ hrp data, splitLast? ((Utf8.encode text).map toLower) = some (hrp, data) ∧ validHrp hrp ∧
      ∃ symbols, data.mapM (alphabet.idxOf? ·) = some symbols ∧
      ∃ version, symbols.head? = some version ∧
        ¬ (16 < version ∨ symbols.length < 7 ∨ polymod (expand hrp ++ symbols) ≠ target version) ∧
      ∃ program, Bits.ofFives? ((symbols.drop 1).take (symbols.length - 7)) = some program ∧
        validProgram version program ∧ ⟨hrp, version, program⟩ = s := by
  have hnot : ∀ b : Bool, ¬ (!b) = true ↔ b = true := by decide
  simp only [decode, unless_bind_eq_some, Option.bind_eq_bind, Option.bind_eq_some_iff, Prod.exists,
    hnot, Option.pure_def, Option.some.injEq, Mixed]

def content (s : SegwitProgram) : List Nat := s.version :: Bits.fives s.program

def symbols (s : SegwitProgram) : List Nat :=
  content s ++ checksum s.hrp s.version (content s)

def written (s : SegwitProgram) : Bytes := s.hrp ++ 0x31 :: (symbols s).map symbolByte

lemma encode_eq (s : SegwitProgram) : encode s = Utf8.ofAscii (written s) := rfl

structure Valid (s : SegwitProgram) : Prop where
  hrp : validHrp s.hrp
  lower : ∀ c ∈ s.hrp, ¬ isUpper c
  version : s.version ≤ 16
  program : validProgram s.version s.program
  length : (written s).length ≤ 90

lemma content_lt (hs : Valid s) : ∀ d ∈ content s, d < 32 :=
  List.forall_mem_cons.mpr ⟨Nat.lt_of_le_of_lt hs.version (by decide), fun _ => Bits.lt_of_mem_fives⟩

lemma symbols_lt (hs : Valid s) : ∀ d ∈ symbols s, d < 32 := by
  intro d hd
  rw [symbols, List.mem_append] at hd
  obtain hd | hd := hd
  · exact content_lt hs d hd
  · exact sixSymbols_lt _ d hd

lemma decode_of_written (hs : Valid s) (hmixed : ¬ Mixed (Utf8.encode text))
    (hb : (Utf8.encode text).map toLower = written s) : decode text = some s := by
  have hlen : (Utf8.encode text).length = (written s).length := by
    rw [← hb, List.length_map]
  have hsep : 0x31 ∉ (symbols s).map symbolByte := by
    intro h
    obtain ⟨d, hd, hbyte⟩ := List.mem_map.mp h
    exact (symbolByte_spec d (symbols_lt hs d hd)).2.1 hbyte
  have hsix : (checksum s.hrp s.version (content s)).length = 6 := rfl
  have hsymbols : (symbols s).length = (Bits.fives s.program).length + 7 := by
    rw [symbols, List.length_append, hsix, content, List.length_cons]
  have hprogram : ((symbols s).drop 1).take ((symbols s).length - 7) = Bits.fives s.program := by
    rw [hsymbols, Nat.add_sub_cancel]
    exact List.take_left
  refine decode_stages.mpr ⟨?_, s.hrp, (symbols s).map symbolByte, ?_, hs.hrp, symbols s,
    mapM_idxOf?_eq_some.mpr ⟨symbols_lt hs, rfl⟩, s.version, rfl, ?_, s.program, ?_, hs.program, rfl⟩
  · rw [hlen]
    exact fun h => h.elim (Nat.not_lt.mpr hs.length) hmixed
  · rw [hb]
    exact splitLast?_append hsep
  · have hpoly : polymod (expand s.hrp ++ symbols s) = target s.version := by
      rw [symbols, ← List.append_assoc]
      exact (polymod_eq_target_iff (content_lt hs) hsix (sixSymbols_lt _)).mpr rfl
    have hversion := hs.version
    have hle : 7 ≤ (symbols s).length := by omega
    simp [hpoly, hversion, hle]
  · rw [hprogram]
    exact Bits.ofFives?_fives s.program

lemma not_isUpper_toLower (c : UInt8) : ¬ isUpper (toLower c) :=
  forall_byte (p := fun c => ¬ isUpper (toLower c)) (by decide +kernel) c

lemma symbols_of_check {version : Nat} {rest : List Nat} {program : Bytes}
    (hds : ∀ d ∈ version :: rest, d < 32) (hlen : 6 ≤ rest.length)
    (hpoly : polymod (expand hrp ++ version :: rest) = target version)
    (hfives : Bits.ofFives? (rest.take (rest.length - 6)) = some program) :
    symbols ⟨hrp, version, program⟩ = version :: rest := by
  have hrest : ∀ d ∈ rest, d < 32 := fun d hd => hds d (List.mem_cons_of_mem _ hd)
  have hmid : Bits.fives program = rest.take (rest.length - 6) :=
    Bits.fives_of_ofFives? (fun d hd => hrest d (List.mem_of_mem_take hd)) hfives
  have hcontent : content ⟨hrp, version, program⟩ = version :: rest.take (rest.length - 6) :=
    congrArg (version :: ·) hmid
  have hsplit : version :: rest.take (rest.length - 6) ++ rest.drop (rest.length - 6) =
      version :: rest := by
    rw [List.cons_append, List.take_append_drop]
  -- no other six symbols behind the content pass the check
  have hsum : rest.drop (rest.length - 6) =
      checksum hrp version (version :: rest.take (rest.length - 6)) := by
    refine (polymod_eq_target_iff ?_ ?_ ?_).mp ?_
    · exact fun d hd => hds d (List.cons_subset_cons version (List.take_subset _ _) hd)
    · rw [List.length_drop]
      omega
    · exact fun d hd => hrest d (List.mem_of_mem_drop hd)
    · rw [List.append_assoc, hsplit, hpoly]
  rw [symbols, hcontent, ← hsum, hsplit]

lemma valid_of_decode (h : decode text = some s) :
    Valid s ∧ ¬ Mixed (Utf8.encode text) ∧ (Utf8.encode text).map toLower = written s := by
  obtain ⟨hok, hrp, data, hsplit, hhrp, ds, hds, version, hhead, hcheck, program, hfives, hprogram,
    rfl⟩ := decode_stages.mp h
  obtain ⟨hlen, hmixed⟩ := not_or.mp hok
  obtain ⟨hversion, hcheck⟩ := not_or.mp hcheck
  obtain ⟨hseven, hpoly⟩ := not_or.mp hcheck
  obtain ⟨hlt, rfl⟩ := mapM_idxOf?_eq_some.mp hds
  obtain ⟨rest, rfl⟩ := List.head?_eq_some_iff.mp hhead
  rw [List.length_cons] at hseven hfives
  have hsymbols := symbols_of_check hlt (by omega) (not_not.mp hpoly) hfives
  have hwritten : (Utf8.encode text).map toLower = written ⟨hrp, version, program⟩ := by
    rw [written, hsymbols]
    exact of_splitLast?_eq_some hsplit
  refine ⟨⟨hhrp, ?_, Nat.le_of_not_lt hversion, hprogram, ?_⟩, hmixed, hwritten⟩
  · intro c hc
    have hmem : c ∈ (Utf8.encode text).map toLower := hwritten ▸ List.mem_append_left _ hc
    obtain ⟨x, -, rfl⟩ := List.mem_map.mp hmem
    exact not_isUpper_toLower x
  · rw [← hwritten, List.length_map]
    exact Nat.le_of_not_lt hlen

theorem decode_eq_some_iff :
    decode text = some s ↔
      Valid s ∧ ¬ Mixed (Utf8.encode text) ∧ (Utf8.encode text).map toLower = written s :=
  ⟨valid_of_decode, fun ⟨hs, hmixed, hb⟩ => decode_of_written hs hmixed hb⟩

lemma written_spec (hs : Valid s) : ∀ c ∈ written s, c.toNat < 128 ∧ ¬ isUpper c := by
  intro c hc
  rw [written, List.mem_append, List.mem_cons] at hc
  obtain hc | rfl | hc := hc
  · have hhrp := hs.hrp
    simp only [validHrp, Bool.and_eq_true, List.all_eq_true, decide_eq_true_eq] at hhrp
    exact ⟨Nat.lt_of_le_of_lt (UInt8.le_iff_toNat_le.mp (hhrp.2 c hc).2) (by decide), hs.lower c hc⟩
  · decide
  · obtain ⟨d, hd, rfl⟩ := List.mem_map.mp hc
    exact (symbolByte_spec d (symbols_lt hs d hd)).2.2

lemma utf8_encode (hs : Valid s) : Utf8.encode (encode s) = written s :=
  Utf8.encode_ofAscii fun c hc => (written_spec hs c hc).1

theorem decode_encode (hs : Valid s) : decode (encode s) = some s := by
  have hupper : ∀ c ∈ written s, ¬ isUpper c := fun c hc => (written_spec hs c hc).2
  refine decode_eq_some_iff.mpr ⟨hs, ?_, ?_⟩
  · rw [utf8_encode hs]
    rintro ⟨h, -⟩
    obtain ⟨c, hc, hcupper⟩ := List.any_eq_true.mp h
    exact hupper c hc hcupper
  · rw [utf8_encode hs]
    exact (List.map_congr_left fun c hc => if_neg (hupper c hc)).trans (List.map_id _)

lemma toLower_ofAscii (h : ∀ c ∈ b, c.toNat < 128) :
    (Utf8.ofAscii b).toLower = Utf8.ofAscii (b.map toLower) := by
  have hall : ∀ n < 128, (Char.ofNat n).toLower = Char.ofNat (toLower (UInt8.ofNat n)).toNat := by
    decide +kernel
  refine String.toList_inj.mp ?_
  change (String.map Char.toLower _).toList = _
  rw [String.toList_map, Utf8.ofAscii, Utf8.ofAscii, String.toList_ofList,
    String.toList_ofList, List.map_map, List.map_map]
  refine List.map_congr_left fun c hc => ?_
  have hchar := hall c.toNat (h c hc)
  rwa [UInt8.ofNat_toNat] at hchar

theorem encode_of_decode (h : decode text = some s) : encode s = text.toLower := by
  obtain ⟨hs, -, hb⟩ := decode_eq_some_iff.mp h
  have hascii : ∀ c ∈ Utf8.encode text, c.toNat < 128 := by
    have hlower : ∀ c : UInt8, (toLower c).toNat < 128 → c.toNat < 128 :=
      forall_byte (by decide +kernel)
    intro c hc
    have hmem : toLower c ∈ written s := hb ▸ List.mem_map_of_mem hc
    exact hlower c (written_spec hs _ hmem).1
  rw [encode_eq, ← hb, ← toLower_ofAscii hascii, ← Utf8.eq_ofAscii hascii]

end BitcoinTx.Bech32
