import BitcoinTx.Proofs.Script.Standard

/-! The standard locking scripts are told apart in the same way by their instructions and by the places of
their bytes. -/

namespace BitcoinTx

open Instruction Outcome

/-- Whether the bytes that do not depend on the hash stand where the kind has them. -/
def Script.hasShape (s : Script) : AddressKind → Bool
  | .p2pkh => s.isP2pkh
  | .p2sh => s.isP2sh
  | .p2wpkh => s.isP2wpkh
  | .p2wsh => s.isP2wsh

namespace Template

def program : Template → List Instruction
  | p2pkh h => Script.p2pkhProgram h
  | p2sh h => Script.p2shProgram h
  | p2wpkh h => [op .zero, ⟨.data20, some h.val⟩]
  | p2wsh h => [op .zero, ⟨.data32, some h.val⟩]

lemma instructions_lockingScript (t : Template) : t.lockingScript.instructions = .ok t.program := by
  cases t with
  | p2pkh h => exact Script.instructions_p2pkh h
  | p2sh h => exact Script.instructions_p2sh h
  | p2wpkh h => exact Script.instructions_p2wpkh h
  | p2wsh h => exact Script.instructions_p2wsh h

end Template

namespace Instruction

variable {i : Instruction} {o : Opcode} {n : Nat}

lemma WellFormed.eq_op (hi : i.WellFormed) (ho : i.opcode = o) (hbare : o.operand = .none) :
    i = op o := by
  rw [WellFormed, ho, hbare] at hi
  rw [op, ← ho, ← hi]

lemma WellFormed.eq_fixed (hi : i.WellFormed) (ho : i.opcode = o) (hfixed : o.operand = .fixed n) :
    ∃ h : FixedBytes n, i = ⟨o, some h.val⟩ := by
  rw [WellFormed, ho, hfixed] at hi
  obtain ⟨d, hd, hlen⟩ := hi
  exact ⟨⟨d, hlen⟩, by rw [← ho, ← hd]⟩

end Instruction

namespace Template

variable {l : List Instruction} {t : Template}

lemma ofPayload?_payload (t : Template) : ofPayload? t.kind t.payload = some t := by
  cases t <;> exact congrArg (Option.map _) (FixedBytes.ofBytes?_val _)

lemma eq_program_of_ofInstructions? (hl : ∀ i ∈ l, i.WellFormed) (h : ofInstructions? l = some t) :
    l = t.program := by
  rw [ofInstructions?.eq_def] at h
  split at h
  · next a b push c d =>
    simp only [List.forall_mem_cons] at hl
    obtain ⟨ha, hb, hpush, hc, hd, -⟩ := hl
    obtain ⟨⟨hao, hbo, hpo, hco, hdo⟩, h⟩ := Option.ite_none_right_eq_some.mp h
    obtain ⟨p, rfl⟩ := hpush.eq_fixed hpo rfl
    obtain rfl : p2pkh p = t := Option.some.inj ((ofPayload?_payload _).symm.trans h)
    rw [ha.eq_op hao rfl, hb.eq_op hbo rfl, hc.eq_op hco rfl, hd.eq_op hdo rfl]
    rfl
  · next a push b =>
    simp only [List.forall_mem_cons] at hl
    obtain ⟨ha, hpush, hb, -⟩ := hl
    obtain ⟨⟨hao, hpo, hbo⟩, h⟩ := Option.ite_none_right_eq_some.mp h
    obtain ⟨p, rfl⟩ := hpush.eq_fixed hpo rfl
    obtain rfl : p2sh p = t := Option.some.inj ((ofPayload?_payload _).symm.trans h)
    rw [ha.eq_op hao rfl, hb.eq_op hbo rfl]
    rfl
  · next v push =>
    simp only [List.forall_mem_cons] at hl
    obtain ⟨hv, hpush, -⟩ := hl
    split at h
    · next ho =>
      obtain ⟨p, rfl⟩ := hpush.eq_fixed ho.2 rfl
      obtain rfl : p2wpkh p = t := Option.some.inj ((ofPayload?_payload _).symm.trans h)
      rw [hv.eq_op ho.1 rfl]
      rfl
    · obtain ⟨ho, h⟩ := Option.ite_none_right_eq_some.mp h
      obtain ⟨p, rfl⟩ := hpush.eq_fixed ho.2 rfl
      obtain rfl : p2wsh p = t := Option.some.inj ((ofPayload?_payload _).symm.trans h)
      rw [hv.eq_op ho.1 rfl]
      rfl
  · cases h

lemma ofLockingScript_cases (s : Script) :
    (∃ t : Template, ofLockingScript s = .ok t ∧ s = t.lockingScript) ∨
      ofLockingScript s = .error (.unknownShape s.bytes) ∧ ∀ t : Template, s ≠ t.lockingScript := by
  by_cases hs : ∃ t : Template, s = t.lockingScript
  · obtain ⟨t, rfl⟩ := hs
    exact .inl ⟨t, t.ofLockingScript_lockingScript, rfl⟩
  · refine .inr ⟨?_, not_exists.mp hs⟩
    rw [ofLockingScript]
    cases hl : s.instructions with
    | error e => rfl
    | ok l =>
      cases ht : ofInstructions? l with
      | none => simp [ht]
      | some t =>
        obtain ⟨hwf, hbytes⟩ := Script.instructions_ok_iff.mp hl
        obtain rfl := eq_program_of_ofInstructions? hwf ht
        have ht := (Script.instructions_ok_iff.mp t.instructions_lockingScript).2
        exact absurd ⟨t, congrArg Script.mk (hbytes.symm.trans ht)⟩ hs

lemma ofLockingScript_ok_iff {s : Script} : ofLockingScript s = .ok t ↔ s = t.lockingScript := by
  refine ⟨fun h => ?_, fun h => h ▸ t.ofLockingScript_lockingScript⟩
  obtain ⟨t', ht, hs⟩ | ⟨he, -⟩ := ofLockingScript_cases s
  · rwa [Except.ok.inj (ht.symm.trans h)] at hs
  · cases he.symm.trans h

lemma lockingScript_injective : Function.Injective lockingScript := by
  intro t t' h
  exact Except.ok.inj (t.ofLockingScript_lockingScript.symm.trans (ofLockingScript_ok_iff.mpr h))

end Template

namespace Script

variable {s : Script} {n : Nat}

lemma framed_iff {before after : Bytes} :
    (s.size = before.length + n + after.length ∧ s.bytes.take before.length = before ∧
      s.bytes.drop (before.length + n) = after) ↔
        ∃ h : FixedBytes n, s = ⟨before ++ h.val ++ after⟩ := by
  constructor
  · rintro ⟨hsize, hbefore, hafter⟩
    let middle := (s.bytes.drop before.length).take n
    have hlen : middle.length = n := by
      rw [size] at hsize
      rw [List.length_take, List.length_drop]
      omega
    refine ⟨⟨middle, hlen⟩, congrArg Script.mk ?_⟩
    calc s.bytes
        = s.bytes.take before.length ++ s.bytes.drop before.length :=
          (List.take_append_drop ..).symm
      _ = before ++ (middle ++ (s.bytes.drop before.length).drop n) := by
          rw [hbefore, List.take_append_drop]
      _ = before ++ middle ++ after := by rw [List.drop_drop, hafter, List.append_assoc]
  · rintro ⟨h, rfl⟩
    have hlen : (before ++ h.val).length = before.length + n := by
      rw [List.length_append, h.property]
    refine ⟨?_, ?_, List.drop_left' hlen⟩
    · simp [size, h.property, Nat.add_assoc]
    · rw [List.append_assoc]
      exact List.take_left

lemma isP2pkh_iff : s.isP2pkh = true ↔ ∃ h, s = p2pkh h := by
  simp only [isP2pkh, Bool.and_eq_true, decide_eq_true_eq, and_assoc]
  exact @framed_iff s 20 [Opcode.dup, Opcode.hash160, Opcode.data20]
    [Opcode.equalVerify, Opcode.checkSig]

lemma isP2sh_iff : s.isP2sh = true ↔ ∃ h, s = p2sh h := by
  simp only [isP2sh, Bool.and_eq_true, decide_eq_true_eq, and_assoc]
  exact @framed_iff s 20 [Opcode.hash160, Opcode.data20] [Opcode.equal]

lemma program_iff {o : Opcode} (ho : UInt8.ofNat n = o) :
    s.size = n + 2 ∧ s.bytes.take 2 = [Opcode.zero, o] ↔
      ∃ h : FixedBytes n, s = witnessProgram h.val := by
  have hprogram (h : FixedBytes n) : witnessProgram h.val = ⟨[Opcode.zero, o] ++ h.val ++ []⟩ := by
    rw [witnessProgram, h.property, ho, List.append_nil]
    rfl
  simp only [hprogram, ← framed_iff, List.length_cons, List.length_nil]
  constructor
  · rintro ⟨hsize, hbefore⟩
    refine ⟨by omega, hbefore, List.drop_eq_nil_of_le ?_⟩
    rw [size] at hsize
    omega
  · rintro ⟨hsize, hbefore, -⟩
    exact ⟨by omega, hbefore⟩

lemma isP2wpkh_iff : s.isP2wpkh = true ↔ ∃ h : Hash160, s = witnessProgram h.val := by
  simp only [isP2wpkh, Bool.and_eq_true, decide_eq_true_eq]
  exact program_iff rfl

lemma isP2wsh_iff : s.isP2wsh = true ↔ ∃ h : Hash256, s = witnessProgram h.val := by
  simp only [isP2wsh, Bool.and_eq_true, decide_eq_true_eq]
  exact program_iff rfl

lemma exists_of_kind_iff {kind : AddressKind} (mk : FixedBytes n → Template)
    (hmk : ∀ t : Template, t.kind = kind ↔ ∃ h, t = mk h) :
    (∃ t : Template, t.kind = kind ∧ s = t.lockingScript) ↔ ∃ h, s = (mk h).lockingScript := by
  simp only [hmk]
  constructor
  · rintro ⟨_, ⟨h, rfl⟩, hs⟩
    exact ⟨h, hs⟩
  · rintro ⟨h, hs⟩
    exact ⟨mk h, ⟨h, rfl⟩, hs⟩

lemma hasShape_iff {kind : AddressKind} :
    s.hasShape kind = true ↔ ∃ t : Template, t.kind = kind ∧ s = t.lockingScript := by
  cases kind with
  | p2pkh =>
    rw [exists_of_kind_iff .p2pkh fun t => by cases t <;> simp [Template.kind]]
    exact isP2pkh_iff
  | p2sh =>
    rw [exists_of_kind_iff .p2sh fun t => by cases t <;> simp [Template.kind]]
    exact isP2sh_iff
  | p2wpkh =>
    rw [exists_of_kind_iff .p2wpkh fun t => by cases t <;> simp [Template.kind]]
    exact isP2wpkh_iff
  | p2wsh =>
    rw [exists_of_kind_iff .p2wsh fun t => by cases t <;> simp [Template.kind]]
    exact isP2wsh_iff

end Script

namespace Template

variable {kind : AddressKind}

lemma hasShape_lockingScript (t : Template) : t.lockingScript.hasShape kind = true ↔ kind = t.kind := by
  rw [Script.hasShape_iff]
  refine ⟨?_, fun h => ⟨t, h.symm, rfl⟩⟩
  rintro ⟨t', rfl, h⟩
  rw [lockingScript_injective h]

lemma payload_length (t : Template) : t.payload.length = t.kind.payloadSize := by
  cases t with
  | p2pkh h | p2sh h | p2wpkh h | p2wsh h => exact h.property

lemma toAddress_ok (t : Template) (network : Network) : t.toAddress network =
    .ok ⟨t.kind, t.payload, network, t.payload_length⟩ := dif_pos t.payload_length

lemma ofAddress_toAddress (t : Template) (network : Network) :
    (t.toAddress network).map ofAddress = .ok t := by
  rw [toAddress_ok]
  cases t <;> rfl

lemma lockingScript_ofAddress (a : Address) : (ofAddress a).lockingScript = a.lockingScript := by
  obtain ⟨kind, payload, network, hlen⟩ := a
  cases kind <;> rfl

/-- A script is parsed as the template that writes it and otherwise not at all, and what the places of its
bytes show is the kind of that template. The address of a template gives it back, and an address has the
locking script of its template. -/
theorem ofLockingScript_exact :
    (∀ (b : Bytes) (t : Template), ofLockingScript ⟨b⟩ = .ok t ↔ b = t.lockingScript.bytes) ∧
      (∀ (b : Bytes) (t : Template), ofLockingScript ⟨b⟩ = .ok t →
        ∀ kind, Script.hasShape ⟨b⟩ kind = true ↔ kind = t.kind) ∧
      (∀ (b : Bytes) (e : ScriptError), ofLockingScript ⟨b⟩ = .error e →
        e = .unknownShape b ∧ ∀ kind, Script.hasShape ⟨b⟩ kind = false) ∧
      (∀ (t : Template) (network : Network), (t.toAddress network).map ofAddress = .ok t) ∧
      ∀ a : Address, a.lockingScript = (ofAddress a).lockingScript := by
  refine ⟨fun b t => ?_, fun b t h kind => ?_, fun b e h => ?_, ofAddress_toAddress,
    fun a => (lockingScript_ofAddress a).symm⟩
  · rw [ofLockingScript_ok_iff]
    exact ⟨fun h => congrArg Script.bytes h, fun h => congrArg Script.mk h⟩
  · rw [ofLockingScript_ok_iff.mp h, hasShape_lockingScript]
  · obtain ⟨t, ht, -⟩ | ⟨he, hne⟩ := ofLockingScript_cases ⟨b⟩
    · cases ht.symm.trans h
    · refine ⟨Except.error.inj (h.symm.trans he), fun kind => Bool.eq_false_iff.mpr fun hshape => ?_⟩
      obtain ⟨t, -, ht⟩ := Script.hasShape_iff.mp hshape
      exact hne t ht

/-- Each byte of the hash reads as a push of twenty bytes, and the second script pushes it in a longer
form. -/
theorem ofLockingScript_pushLike :
    let h : Hash160 := ⟨List.replicate 20 Opcode.data20, rfl⟩
    let longer : Bytes := [Opcode.dup, Opcode.hash160, Opcode.pushData1, Opcode.data20] ++ h.val ++
      [Opcode.equalVerify, Opcode.checkSig]
    (∀ kind, (Script.p2pkh h).hasShape kind = true ↔ kind = .p2pkh) ∧
      ofLockingScript ⟨longer⟩ = .error (.unknownShape longer) ∧
      ∀ kind, Script.hasShape ⟨longer⟩ kind = false := by
  intro h longer
  obtain ⟨hok, hshape, herr, -, -⟩ := ofLockingScript_exact
  have hlonger : ofLockingScript ⟨longer⟩ = .error (.unknownShape longer) := by decide +kernel
  exact ⟨hshape _ (p2pkh h) ((hok _ _).mpr rfl), hlonger, (herr _ _ hlonger).2⟩

end Template

end BitcoinTx
