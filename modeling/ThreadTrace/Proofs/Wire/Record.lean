import ThreadTrace.Proofs.Bytes.Region
import ThreadTrace.Proofs.Wire.Prefix

/-!
# ThreadTrace.Proofs.Wire.Record — storing an event and reading it are inverse

A record that has room is put there (`Record.exists_store`), and is read as the event it announces.
The other way round, the bytes that an event was read from are those that it is stored as, but for
the bytes that padding skips (`LaidOut.blanked_eq`).  `store_decodeEvent` has both.
-/

namespace ThreadTrace.Wire

open LittleEndian

/-! ### From an event to the bytes -/

/-- A field is as long as its length byte says, and so it is not cut when it is stored again. -/
theorem cut_of_length {length : UInt8} {bs : List UInt8} (h : bs.length = length.toNat) :
    cut bs = bs ∧ UInt8.ofNat bs.length = length := by
  have hlt : length.toNat < 256 := length.toNat_lt
  have hmax : bs.length ≤ maxField := by
    rw [h, maxField]
    omega
  refine ⟨List.take_of_length_le hmax, ?_⟩
  rw [h, UInt8.ofNat_toNat]

/-- The record that stores an event again.  The other events are never written. -/
def Event.record? : Event → Option Record
  | spanBegin ticks name args => some (.spanBegin name args ticks)
  | spanEnd ticks => some (.spanEnd ticks)
  | threadName name => some (.naming .thread name)
  | processName name => some (.naming .process name)
  | unitChange unit => some (.unitChange unit)
  | padding size => some (.padding size)
  | instant .. | custom .. | streamOver => none

/-- The bytes of an event, those that are skipped being zeros. -/
def Event.blanked (e : Event) (used : List UInt8) : List UInt8 :=
  match e with
  | padding _ =>
    used.take paddingHeaderSize ++ List.replicate (used.length - paddingHeaderSize) 0
  | _ => used

@[simp] theorem Event.length_blanked (e : Event) (used : List UInt8) :
    (e.blanked used).length = used.length := by
  cases e with
  | padding size =>
    rw [blanked, List.length_append, List.length_take, List.length_replicate]
    omega
  | _ => rfl

/-- Only the skipped bytes of padding can be others than those that are stored. -/
theorem Event.LaidOut.blanked_eq {used : List UInt8} {e : Event} {record : Record}
    (h : e.LaidOut used) (he : e.record? = some record) : e.blanked used = record.toBytes := by
  cases h with
  | spanBegin ticks hname hargs =>
    obtain rfl := Option.some.inj he
    obtain ⟨hcutName, rfl⟩ := cut_of_length hname
    obtain ⟨hcutArgs, rfl⟩ := cut_of_length hargs
    simp only [Event.blanked, Record.toBytes, hcutName, hcutArgs, List.cons_append,
      List.append_assoc, List.nil_append]
    rfl
  | spanEnd ticks =>
    obtain rfl := Option.some.inj he
    rfl
  | unitChange unit =>
    obtain rfl := Option.some.inj he
    rfl
  | @processName _ name h =>
    obtain rfl := Option.some.inj he
    obtain ⟨hcut, rfl⟩ := cut_of_length h
    simp only [Event.blanked, Record.toBytes, hcut]
    rfl
  | @threadName _ name h =>
    obtain rfl := Option.some.inj he
    obtain ⟨hcut, rfl⟩ := cut_of_length h
    simp only [Event.blanked, Record.toBytes, hcut]
    rfl
  | @padding size skipped h =>
    obtain rfl := Option.some.inj he
    have hheader : ((7 : UInt8) :: ofUInt32 size).length = paddingHeaderSize := by
      rw [List.length_cons, length_ofUInt32]
      rfl
    rw [Event.blanked, ← List.cons_append, List.take_left' hheader, List.length_append, hheader,
      Nat.add_sub_cancel_left, h]
    rfl
  | custom | streamOver | instant => cases he

/-! ### In a region -/

namespace Record

variable {record : Record} {r : Region} {offset : Nat}

/-- A record that has room is put there, and nothing else is touched. -/
theorem exists_store (h : offset + record.size ≤ r.size) :
    ∃ s, record.store r offset = some (s, record.size) ∧
      s.part offset record.size = record.toBytes ∧
      ∀ i, i < offset ∨ offset + record.size ≤ i → s.get? i = r.get? i := by
  have hlen := length_toBytes record
  have hfit : offset + record.toBytes.length ≤ r.size := by rwa [hlen]
  obtain ⟨s, hs⟩ := r.write?_eq_some hfit
  refine ⟨s, ?_, ?_, fun i hi => ?_⟩
  · rw [store_eq, hs]
    rfl
  · have hpart := Region.part_write? hs hfit
    rwa [hlen] at hpart
  · have hout : ¬ (offset ≤ i ∧ i < offset + record.toBytes.length) := by
      rw [hlen]
      omega
    rw [Region.get?_write? hs, if_neg hout]

end Record

/-- **Storing an event and reading it are inverse.**  Where there is room a record is stored, and
what was stored is read as its event, its fields cut, and as taking as many bytes as the record
took, whatever follows.  An event that was read is stored as the bytes it was read from; only those
skipped as padding become zeros.  No other byte of the region is touched. -/
theorem store_decodeEvent :
    (∀ {record : Record} {e : Event}, record.event? = some e →
      ∀ (r : Region) (offset : Nat), offset + record.size ≤ r.size →
        ∃ s used, record.store r offset = some (s, used) ∧
          (∀ rest, decodeEvent (s.part offset used ++ rest) = .ok (e, used)) ∧
          ∀ i, i < offset ∨ offset + used ≤ i → s.get? i = r.get? i) ∧
    ∀ {src : List UInt8} {e : Event} {n : Nat} {record : Record}, decodeEvent src = .ok (e, n) →
      e.record? = some record → ∀ (r : Region) (offset : Nat), offset + n ≤ r.size →
        ∃ s, record.store r offset = some (s, n) ∧
          s.part offset n = e.blanked (src.take n) ∧
          ∀ i, i < offset ∨ offset + n ≤ i → s.get? i = r.get? i := by
  constructor
  · intro record e he r offset hfit
    obtain ⟨s, hstore, hpart, hrest⟩ := Record.exists_store hfit
    refine ⟨s, record.size, hstore, fun rest => ?_, hrest⟩
    rw [hpart, ← Record.length_toBytes]
    exact (reads_scanEvent he).decodeEvent_append rest
  · intro src e n record hdecode he r offset hfit
    obtain ⟨used, rest, rfl, rfl, hreads⟩ := decodeEvent_eq_ok hdecode
    have hbytes := hreads.laidOut.blanked_eq he
    have hsize : record.size = used.length := by
      rw [← Record.length_toBytes, ← hbytes, Event.length_blanked]
    rw [← hsize] at hfit ⊢
    obtain ⟨s, hstore, hpart, hrest⟩ := Record.exists_store hfit
    refine ⟨s, hstore, ?_, hrest⟩
    rw [hpart, hsize, List.take_left, hbytes]

/-- Either field of this span is longer than it can be stored. -/
def longFields : Record := .spanBegin (List.replicate 300 65) (List.replicate 256 66) 7

/-- Padding over three bytes, and the end of a span. -/
def paddedEnd : List UInt8 := [7, 3, 0, 0, 0, 9, 9, 9, 4, 5, 0, 0, 0, 0, 0, 0, 0]

theorem store_decodeEvent_padded :
    (∃ s used, longFields.store (.filled 600 1) 10 = some (s, used) ∧
      ∀ rest, decodeEvent (s.part 10 used ++ rest) =
        .ok (.spanBegin 7 (List.replicate 255 65) (List.replicate 255 66), used)) ∧
    decodeEvent paddedEnd = .ok (.padding 3, 8) ∧
    ∃ s, Record.store (.padding 3) (.filled 16 1) 2 = some (s, 8) ∧
      s.part 2 8 = [7, 3, 0, 0, 0, 0, 0, 0] ∧ s.get? 1 = some 1 ∧ s.get? 10 = some 1 := by
  have hlong : longFields.event? =
      some (.spanBegin 7 (List.replicate 255 65) (List.replicate 255 66)) := by decide +kernel
  have hroom : 10 + longFields.size ≤ (Region.filled 600 1).size := by decide +kernel
  have hpadded : decodeEvent paddedEnd = .ok (.padding 3, 8) := by decide
  obtain ⟨hstore, hload⟩ := store_decodeEvent
  obtain ⟨s, used, hstored, hread, -⟩ := hstore hlong _ _ hroom
  obtain ⟨s', hstored', hpart, hframe⟩ :=
    @hload paddedEnd _ 8 (.padding 3) hpadded rfl (.filled 16 1) 2 (by decide)
  refine ⟨⟨s, used, hstored, hread⟩, hpadded, s', hstored', hpart, ?_, ?_⟩
  · exact hframe 1 (by decide)
  · exact hframe 10 (by decide)

end ThreadTrace.Wire
