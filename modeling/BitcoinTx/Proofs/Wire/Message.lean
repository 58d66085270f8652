import BitcoinTx.Proofs.Wire.Layout
import BitcoinTx.Wire.Value

/-! Messages of any layout: a reader that knows the shapes of the values finds them again, in front of
whatever follows. -/

namespace BitcoinTx

open Outcome WirePart

namespace WireValue

def layout : WireValue → List WirePart
  | bytes b => [raw b]
  | u8 n => [raw [n]]
  | u16 n => [raw (leBytes 2 n.toNat)]
  | u32 n => [raw (leBytes 4 n.toNat)]
  | u64 n => [raw (leBytes 8 n.toNat)]
  | compactSize n => [count n.toNat]
  | varBytes b => data b
  | varText s => data (Utf8.encode s)

def size : WireValue → Nat
  | bytes b => b.length
  | u8 _ => 1
  | u16 _ => 2
  | u32 _ => 4
  | u64 _ => 8
  | compactSize n => CompactSize.size n.toNat
  | varBytes b => varBytesSize b.length
  | varText s => varBytesSize (Utf8.encode s).length

/-- A length that is written is a 64-bit number, as every length in memory is. -/
def Addressable : WireValue → Prop
  | varBytes b => b.length < 2 ^ 64
  | varText s => (Utf8.encode s).length < 2 ^ 64
  | _ => True

instance : (v : WireValue) → Decidable v.Addressable
  | varBytes b => inferInstanceAs (Decidable (b.length < 2 ^ 64))
  | varText s => inferInstanceAs (Decidable ((Utf8.encode s).length < 2 ^ 64))
  | bytes _ | u8 _ | u16 _ | u32 _ | u64 _ | compactSize _ => .isTrue trivial

variable {v : WireValue} {l : List WireValue} {n : Nat}

lemma length_encode (v : WireValue) : v.encode.length = v.size := by
  cases v <;> simp [encode, size]

lemma encodeAll_layout (v : WireValue) : WirePart.encodeAll v.layout = v.encode := by
  cases v <;> simp [layout, encode, WirePart.encode]

lemma encodeAll_layouts (l : List WireValue) :
    WirePart.encodeAll (l.flatMap layout) = encodeAll l := by
  rw [encodeAll_flatMap, encodeAll]
  exact congrArg (List.flatMap · l) (funext encodeAll_layout)

lemma Addressable.lt (h : v.Addressable) (hn : count n ∈ v.layout) : n < 2 ^ 64 := by
  cases v with
  | compactSize m =>
    obtain rfl : n = m.toNat := by simpa [layout] using hn
    exact m.toNat_lt
  | varBytes b => exact count_mem_data hn ▸ h
  | varText s => exact count_mem_data hn ▸ h
  | _ => simp [layout] at hn

end WireValue

namespace WireShape

variable {s : WireShape} {shapes : List WireShape} {v : WireValue} {l : List WireValue}
  {b rest : Bytes}

lemma shape_of_read (h : s.read b = .ok v rest) : v.shape = s ∧ Leads v.layout b rest := by
  cases s with
  | bytes n =>
    obtain ⟨x, hx, rfl⟩ := map_ok.mp h
    obtain ⟨hn, hb⟩ := Reader.take_ok.mp hx
    exact ⟨congrArg WireShape.bytes hn, leads_raw_singleton.mpr hb⟩
  | u8 =>
    obtain ⟨x, hx, rfl⟩ := map_ok.mp h
    exact ⟨rfl, leads_raw_singleton.mpr (Reader.u8_ok.mp hx)⟩
  | u16 =>
    obtain ⟨x, hx, rfl⟩ := map_ok.mp h
    exact ⟨rfl, leads_raw_singleton.mpr (Reader.u16_ok.mp hx)⟩
  | u32 =>
    obtain ⟨x, hx, rfl⟩ := map_ok.mp h
    exact ⟨rfl, leads_raw_singleton.mpr (Reader.u32_ok.mp hx)⟩
  | u64 =>
    obtain ⟨x, hx, rfl⟩ := map_ok.mp h
    exact ⟨rfl, leads_raw_singleton.mpr (Reader.u64_ok.mp hx)⟩
  | compactSize =>
    obtain ⟨n, hn, rfl⟩ := map_ok.mp h
    have hlead := Reader.compactSize_leads.mp hn
    rw [WireValue.layout, UInt64.toNat_ofNat_of_lt' (hlead.lt List.mem_cons_self)]
    exact ⟨rfl, hlead⟩
  | varBytes =>
    obtain ⟨x, hx, rfl⟩ := map_ok.mp h
    exact ⟨rfl, Reader.varBytes_leads.mp hx⟩
  | varText =>
    obtain ⟨x, hx, rfl⟩ := map_ok.mp h
    exact ⟨rfl, Reader.varText_leads.mp hx⟩

lemma read_of_shape (h : Leads v.layout b rest) : v.shape.read b = .ok v rest := by
  cases v with
  | bytes x => exact map_ok.mpr ⟨x, Reader.take_ok.mpr ⟨rfl, leads_raw_singleton.mp h⟩, rfl⟩
  | u8 n => exact map_ok.mpr ⟨n, Reader.u8_ok.mpr (leads_raw_singleton.mp h), rfl⟩
  | u16 n => exact map_ok.mpr ⟨n, Reader.u16_ok.mpr (leads_raw_singleton.mp h), rfl⟩
  | u32 n => exact map_ok.mpr ⟨n, Reader.u32_ok.mpr (leads_raw_singleton.mp h), rfl⟩
  | u64 n => exact map_ok.mpr ⟨n, Reader.u64_ok.mpr (leads_raw_singleton.mp h), rfl⟩
  | compactSize n =>
    exact map_ok.mpr ⟨n.toNat, Reader.compactSize_leads.mpr h, congrArg _ UInt64.ofNat_toNat⟩
  | varBytes x => exact map_ok.mpr ⟨x, Reader.varBytes_leads.mpr h, rfl⟩
  | varText x => exact map_ok.mpr ⟨x, Reader.varText_leads.mpr h, rfl⟩

lemma read_leads : s.read b = .ok v rest ↔ v.shape = s ∧ Leads v.layout b rest :=
  ⟨shape_of_read, fun ⟨hs, h⟩ => hs ▸ read_of_shape h⟩

/-- Readers of the shapes find what is laid out as values of these shapes, and nothing else. -/
theorem readAll_leads :
    readAll shapes b = .ok l rest ↔
      l.map WireValue.shape = shapes ∧ Leads (l.flatMap WireValue.layout) b rest := by
  induction shapes generalizing b l rest with
  | nil =>
    rw [readAll, pure_ok, List.map_eq_nil_iff]
    constructor
    · rintro ⟨rfl, rfl⟩
      exact ⟨rfl, .nil⟩
    · rintro ⟨rfl, h⟩
      exact ⟨rfl, leads_nil.mp h⟩
  | cons s shapes ih =>
    rw [readAll]
    simp only [bind_ok, pure_ok, read_leads, ih]
    constructor
    · rintro ⟨v, m, ⟨hs, hv⟩, l, _, ⟨hl, hm⟩, rfl, rfl⟩
      exact ⟨List.cons_eq_cons.mpr ⟨hs, hl⟩, leads_append.mpr ⟨m, hv, hm⟩⟩
    · rintro ⟨hl, h⟩
      cases l with
      | nil => contradiction
      | cons v l =>
        obtain ⟨hs, hl⟩ := List.cons_eq_cons.mp hl
        obtain ⟨m, hv, hm⟩ := leads_append.mp h
        exact ⟨v, m, ⟨hs, hv⟩, l, rest, ⟨hl, hm⟩, rfl, rfl⟩

lemma readAll_encoded (h : ∀ v ∈ l, v.Addressable) (rest : Bytes) :
    readAll (l.map WireValue.shape) (WireValue.encodeAll l ++ rest) = .ok l rest := by
  refine readAll_leads.mpr ⟨rfl, ?_⟩
  rw [← WireValue.encodeAll_layouts]
  refine leads_encodeAll fun n hn => ?_
  obtain ⟨v, hv, hn⟩ := List.mem_flatMap.mp hn
  exact (h v hv).lt hn

/-- A message is read back value by value, in front of any rest: behind the values in front of it, each
value stands in exactly its size. -/
theorem readAll_encodeAll (h : ∀ v ∈ l, v.Addressable) (rest : Bytes) :
    readAll (l.map WireValue.shape) (WireValue.encodeAll l ++ rest) = .ok l rest ∧
      ∀ front v back, l = front ++ v :: back →
        readAll (front.map WireValue.shape) (WireValue.encodeAll l ++ rest) =
            .ok front (v.encode ++ (WireValue.encodeAll back ++ rest)) ∧
          v.encode.length = v.size := by
  refine ⟨readAll_encoded h rest, ?_⟩
  rintro front v back rfl
  have hfront : ∀ v ∈ front, v.Addressable := fun v hv => h v (List.mem_append_left _ hv)
  refine ⟨?_, v.length_encode⟩
  rw [WireValue.encodeAll, List.flatMap_append, List.flatMap_cons, List.append_assoc,
    List.append_assoc]
  exact readAll_encoded hfront _

end WireShape

/-- A value of each kind, with numbers and lengths at which the form of a length changes. -/
def mixedMessage : List WireValue :=
  [.bytes [0xfe, 0], .u8 0xff, .u16 0x1234, .u32 0xdeadbeef, .u64 0x0102030405060708,
    .compactSize 0xfc, .compactSize 0xffff, .compactSize 0x100000000,
    .varBytes (List.replicate 0xfd 0xaa), .varText "é", .bytes []]

theorem readAll_encodeAll_mixedMessage : (∀ v ∈ mixedMessage, v.Addressable) ∧
    WireShape.readAll (mixedMessage.map WireValue.shape)
        (WireValue.encodeAll mixedMessage ++ [0xfd, 0]) = .ok mixedMessage [0xfd, 0] ∧
      (WireValue.varBytes (List.replicate 0xfd 0xaa)).encode.length = 0x100 := by
  have h : ∀ v ∈ mixedMessage, v.Addressable := by decide +kernel
  obtain ⟨hread, hfields⟩ := WireShape.readAll_encodeAll h [0xfd, 0]
  have hsize := (hfields (mixedMessage.take 8) _ (mixedMessage.drop 9) rfl).2
  exact ⟨h, hread, hsize.trans (by decide +kernel)⟩

end BitcoinTx
