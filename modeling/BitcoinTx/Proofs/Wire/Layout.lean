import BitcoinTx.Proofs.Wire.Reader

/-! Layouts of messages: which bytes stand as they are, and which are forms of a number. Two byte
strings of the same length do not have the same layout. -/

namespace BitcoinTx

open Outcome

inductive WirePart where
  | raw (b : Bytes)
  | count (n : Nat)

namespace WirePart

def encode : WirePart → Bytes
  | raw b => b
  | count n => CompactSize.encode n

def encodeAll (l : List WirePart) : Bytes := l.flatMap encode

def Form : WirePart → Bytes → Prop
  | raw b, c => c = b
  | count n, c => CompactSize.Form n c

def data (b : Bytes) : List WirePart := [count b.length, raw b]

/-- The parts stand in front of the rest, one behind the other. -/
inductive Leads : List WirePart → Bytes → Bytes → Prop
  | nil {b : Bytes} : Leads [] b b
  | cons {p : WirePart} {l : List WirePart} {c b rest : Bytes} :
    p.Form c → Leads l b rest → Leads (p :: l) (c ++ b) rest

section

variable {p : WirePart} {l l' : List WirePart} {b c rest : Bytes} {n : Nat}

lemma leads_nil : Leads [] b rest ↔ b = rest := by
  constructor
  · intro h
    cases h
    rfl
  · rintro rfl
    exact .nil

lemma leads_cons : Leads (p :: l) b rest ↔ ∃ c m, p.Form c ∧ b = c ++ m ∧ Leads l m rest := by
  constructor
  · intro h
    cases h with
    | cons hp hl => exact ⟨_, _, hp, rfl, hl⟩
  · rintro ⟨c, m, hp, rfl, hl⟩
    exact .cons hp hl

lemma leads_raw : Leads (raw c :: l) b rest ↔ ∃ m, b = c ++ m ∧ Leads l m rest := by
  rw [leads_cons]
  constructor
  · rintro ⟨_, m, rfl, hb, hl⟩
    exact ⟨m, hb, hl⟩
  · rintro ⟨m, hb, hl⟩
    exact ⟨c, m, rfl, hb, hl⟩

lemma leads_raw_byte {x y : UInt8} :
    Leads (raw [x] :: l) (y :: b) rest ↔ y = x ∧ Leads l b rest := by
  rw [leads_raw]
  simp

lemma leads_singleton : Leads [p] b rest ↔ ∃ c, p.Form c ∧ b = c ++ rest := by
  simp only [leads_cons, leads_nil]
  constructor
  · rintro ⟨c, m, hp, hb, rfl⟩
    exact ⟨c, hp, hb⟩
  · rintro ⟨c, hp, hb⟩
    exact ⟨c, rest, hp, hb, rfl⟩

lemma leads_raw_singleton : Leads [raw c] b rest ↔ b = c ++ rest := by
  rw [leads_singleton]
  exact exists_eq_left

lemma leads_append : Leads (l ++ l') b rest ↔ ∃ m, Leads l b m ∧ Leads l' m rest := by
  constructor
  · intro h
    induction l generalizing b with
    | nil => exact ⟨b, .nil, h⟩
    | cons p l ih =>
      cases h with
      | cons hp hl =>
        obtain ⟨m, h₁, h₂⟩ := ih hl
        exact ⟨m, .cons hp h₁, h₂⟩
  · rintro ⟨m, h, h'⟩
    induction h with
    | nil => exact h'
    | cons hp _ ih => exact .cons hp (ih h')

lemma leads_data : Leads (data c) b rest ↔ ∃ x, CompactSize.Form c.length x ∧ b = x ++ c ++ rest := by
  rw [data, leads_cons]
  simp only [leads_raw_singleton]
  constructor
  · rintro ⟨x, _, hx, rfl, rfl⟩
    exact ⟨x, hx, (List.append_assoc ..).symm⟩
  · rintro ⟨x, hx, rfl⟩
    exact ⟨x, _, hx, List.append_assoc .., rfl⟩

@[simp] lemma encodeAll_nil : encodeAll [] = [] := rfl

@[simp] lemma encodeAll_cons : encodeAll (p :: l) = p.encode ++ encodeAll l := rfl

@[simp] lemma encodeAll_append : encodeAll (l ++ l') = encodeAll l ++ encodeAll l' :=
  List.flatMap_append

@[simp] lemma encodeAll_data : encodeAll (data b) = varBytes b := by
  simp [data, encode, varBytes]

lemma encodeAll_flatMap {α : Type} {f : α → List WirePart} {s : List α} :
    encodeAll (s.flatMap f) = s.flatMap fun a => encodeAll (f a) :=
  List.flatMap_assoc

lemma count_mem_data (h : count n ∈ data b) : n = b.length := by
  simpa [data] using h

lemma Form.length_le (h : p.Form c) : p.encode.length ≤ c.length := by
  cases p with
  | raw b => exact h ▸ Nat.le_refl _
  | count n =>
    rw [encode, CompactSize.length_encode]
    exact CompactSize.Form.size_le h

lemma Form.eq_encode (h : p.Form c) (hc : c.length = p.encode.length) : c = p.encode := by
  cases p with
  | raw b => exact h
  | count n =>
    rw [encode, CompactSize.length_encode] at hc
    exact CompactSize.Form.eq_encode h hc

lemma leads_encodeAll (h : ∀ n, count n ∈ l → n < 2 ^ 64) : Leads l (encodeAll l ++ rest) rest := by
  induction l with
  | nil => exact .nil
  | cons p l ih =>
    have hp : p.Form p.encode := by
      cases p with
      | raw b => rfl
      | count n => exact CompactSize.form_encode (h n List.mem_cons_self)
    have hl := ih fun n hn => h n (List.mem_cons_of_mem p hn)
    rw [encodeAll_cons, List.append_assoc]
    exact .cons hp hl

lemma Leads.lt (h : Leads l b rest) (hn : count n ∈ l) : n < 2 ^ 64 := by
  induction h with
  | nil => cases hn
  | cons hp _ ih =>
    rcases List.mem_cons.mp hn with rfl | hn
    · exact CompactSize.Form.lt hp
    · exact ih hn

lemma Leads.length_le (h : Leads l b rest) : (encodeAll l).length + rest.length ≤ b.length := by
  induction h with
  | nil => exact Nat.le_of_eq (Nat.zero_add _)
  | cons hp _ ih =>
    have := hp.length_le
    rw [encodeAll_cons, List.length_append, List.length_append]
    omega

lemma Leads.eq_encodeAll (h : Leads l b rest)
    (hb : (encodeAll l).length + rest.length = b.length) : b = encodeAll l ++ rest := by
  induction h with
  | nil => rfl
  | cons hp hl ih =>
    have h₁ := hp.length_le
    have h₂ := hl.length_le
    rw [encodeAll_cons, List.length_append, List.length_append] at hb
    rw [encodeAll_cons, List.append_assoc, ← ih (by omega), ← hp.eq_encode (by omega)]

lemma leads_count_zero (h : Leads (count n :: l) b rest) (hb : ∀ x ∈ b.head?, x = 0) :
    n = 0 ∧ Leads (raw [0] :: l) b rest := by
  obtain ⟨c, m, hc, rfl, hl⟩ := leads_cons.mp h
  rcases hc with ⟨hn, rfl⟩ | ⟨-, rfl⟩ | ⟨-, rfl⟩ | ⟨-, rfl⟩
  · have hz : UInt8.ofNat n = 0 := hb _ rfl
    have hn' := UInt8.toNat_ofNat_of_lt' (Nat.lt_trans hn (by decide) : n < UInt8.size)
    rw [hz] at hn'
    obtain rfl : 0 = n := hn'
    exact ⟨rfl, leads_raw.mpr ⟨m, rfl, hl⟩⟩
  all_goals
    cases hb _ rfl

end

end WirePart

namespace Reader

open WirePart

variable {b rest : Bytes}

lemma compactSize_leads {n : Nat} : compactSize b = .ok n rest ↔ Leads [count n] b rest := by
  rw [compactSize_ok, leads_singleton]
  rfl

lemma varBytes_leads {x : Bytes} : varBytes b = .ok x rest ↔ Leads (data x) b rest := by
  rw [varBytes_ok, leads_data]

lemma varText_leads {s : String} :
    varText b = .ok s rest ↔ Leads (data (Utf8.encode s)) b rest := by
  rw [varText, bind_ok]
  simp only [varBytes_leads]
  constructor
  · rintro ⟨x, m, hx, h⟩
    cases ht : Utf8.decode x with
    | ok t =>
      rw [ht] at h
      obtain ⟨rfl, rfl⟩ := pure_ok.mp h
      rwa [← Utf8.decode_ok_iff.mp ht]
    | error e =>
      rw [ht] at h
      exact (throw_ok.mp h).elim
  · intro h
    refine ⟨_, rest, h, ?_⟩
    rw [Utf8.decode_ok_iff.mpr rfl]
    rfl

section

variable {ε α : Type} {read : EStateM ε Bytes α} {layout : α → List WirePart} {n : Nat} {l : List α}

lemma replicate_leads_of {P : α → Prop}
    (h : ∀ {b a rest}, read b = .ok a rest ↔ P a ∧ Leads (layout a) b rest) :
    replicate n read b = .ok l rest ↔
      l.length = n ∧ (∀ a ∈ l, P a) ∧ Leads (l.flatMap layout) b rest := by
  induction n generalizing b l rest with
  | zero =>
    rw [replicate, pure_ok, List.length_eq_zero_iff]
    constructor
    · rintro ⟨rfl, rfl⟩
      exact ⟨rfl, by simp, .nil⟩
    · rintro ⟨rfl, -, hl⟩
      exact ⟨rfl, leads_nil.mp hl⟩
  | succ n ih =>
    rw [replicate]
    simp only [bind_ok, pure_ok, h, ih]
    constructor
    · rintro ⟨a, m, ⟨ha, hm⟩, l, _, ⟨hn, hl, hm'⟩, rfl, rfl⟩
      subst hn
      exact ⟨rfl, List.forall_mem_cons.mpr ⟨ha, hl⟩, leads_append.mpr ⟨m, hm, hm'⟩⟩
    · rintro ⟨hn, hl, hlead⟩
      cases l with
      | nil => cases hn
      | cons a l =>
        obtain ⟨m, hm, hm'⟩ := leads_append.mp hlead
        obtain ⟨ha, hl⟩ := List.forall_mem_cons.mp hl
        exact ⟨a, m, ⟨ha, hm⟩, l, rest, ⟨Nat.succ.inj hn, hl, hm'⟩, rfl, rfl⟩

lemma replicate_leads (h : ∀ {b a rest}, read b = .ok a rest ↔ Leads (layout a) b rest) :
    replicate n read b = .ok l rest ↔ l.length = n ∧ Leads (l.flatMap layout) b rest := by
  have hread {b a rest} : read b = .ok a rest ↔ True ∧ Leads (layout a) b rest :=
    by rw [h, true_and]
  rw [replicate_leads_of hread]
  simp

end

end Reader

end BitcoinTx
