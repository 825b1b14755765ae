import ThreadTrace.Proofs.Wire.Record

/-!
# ThreadTrace.Proofs.Wire.Store — records are stored whole or not at all

`Record.needed` tells how much room a record takes, from its fields as they were given, and
`Record.encode` what is answered when it is stored and what the memory holds then.
`Record.stored_whole_or_not` says when there is an answer, which bytes have changed and to what, and
that fields with the same 255 bytes in front are stored alike.
-/

namespace ThreadTrace.Wire.Record

/-- The number of bytes that a record needs, by the lengths of its fields before they are cut. -/
def needed : Record → Nat
  | streamHeader _ => 32
  | chunkHeader _ => 20
  | spanBegin name args _ => beginSize name.length args.length
  | spanEnd _ => 9
  | naming _ name => nameSize name.length
  | padding n => 5 + n.toNat
  | unitChange _ => 9

/-- The fields that are stored have this size too, although they may have been cut. -/
theorem size_eq_needed (record : Record) : record.size = record.needed := by
  cases record with
  | spanBegin name args ticks => exact size_spanBegin name args ticks
  | naming kind name => exact size_naming kind name
  | _ => rfl

/-- There is a tag at least, so nothing fits where there is no room at all. -/
theorem needed_pos (record : Record) : 0 < record.needed := by
  cases record with
  | spanBegin name args ticks =>
    simp only [needed, beginSize, beginHeaderSize]
    omega
  | naming kind name =>
    simp only [needed, nameSize, nameHeaderSize]
    omega
  | _ =>
    simp only [needed]
    omega

/-- What is answered when a record is to be stored in the memory from an offset on, and the memory
then. -/
def encode (record : Record) (r : Region) (offset : Nat) : Option Nat × Region :=
  match record.store r offset with
  | some (s, used) => (some used, s)
  | none => (none, r)

variable {record : Record} {r : Region} {offset : Nat}

theorem encode_of_le (h : offset + record.needed ≤ r.size) :
    ∃ s, record.encode r offset = (some record.needed, s) ∧ s.size = r.size ∧
      s.part offset record.needed = record.toBytes ∧
      ∀ i, i < offset ∨ offset + record.needed ≤ i → s.get? i = r.get? i := by
  rw [← size_eq_needed] at h ⊢
  obtain ⟨s, hstore, hpart, hrest⟩ := exists_store h
  have hwrite := hstore
  rw [store_eq, Option.map_eq_some_iff] at hwrite
  obtain ⟨s', hwrite, heq⟩ := hwrite
  cases heq
  exact ⟨s, by rw [encode, hstore], Region.size_write? hwrite, hpart, hrest⟩

theorem encode_of_lt (h : r.size < offset + record.needed) :
    record.encode r offset = (none, r) := by
  have hfull : ¬ offset + record.size ≤ r.size := by
    rw [size_eq_needed]
    omega
  rw [encode, store, if_neg hfull]

/-- Two records of one kind whose fields begin with the same 255 bytes, and have no other
differences. -/
inductive SameFront : Record → Record → Prop where
  | spanBegin {name name' args args' : List UInt8} (ticks : UInt64)
      (hname : name.take 255 = name'.take 255) (hargs : args.take 255 = args'.take 255) :
      SameFront (.spanBegin name args ticks) (.spanBegin name' args' ticks)
  | naming {name name' : List UInt8} (kind : NameKind) (hname : name.take 255 = name'.take 255) :
      SameFront (.naming kind name) (.naming kind name')

theorem SameFront.toBytes_eq {record record' : Record} (h : SameFront record record') :
    record'.toBytes = record.toBytes := by
  cases h with
  | spanBegin ticks hname hargs =>
    have hcutName : cut _ = cut _ := hname
    have hcutArgs : cut _ = cut _ := hargs
    simp only [toBytes, hcutName, hcutArgs]
  | naming kind hname =>
    have hcut : cut _ = cut _ := hname
    simp only [toBytes, hcut]

/-- How a record is stored depends on its bytes only. -/
theorem encode_congr {record record' : Record} (h : record'.toBytes = record.toBytes) (r : Region)
    (offset : Nat) : record'.encode r offset = record.encode r offset := by
  have hsize : record'.size = record.size := by
    rw [← length_toBytes, ← length_toBytes, h]
  rw [encode, encode, store_eq, store_eq, h, hsize]

/-- **A record is stored whole or not at all.**  It is stored exactly if there is as much room as
its fields, before they are cut, let it need.  Then the first bytes from the offset on, and no
others, have changed, and to what the record makes them, whatever they were.  Otherwise no byte has
changed.  Of fields with the same 255 bytes in front the same is stored. -/
theorem stored_whole_or_not (record : Record) (r : Region) (offset : Nat) :
    (∀ n, (record.encode r offset).1 = some n ↔ n = record.needed ∧ n ≤ r.size - offset) ∧
    (∀ n s, record.encode r offset = (some n, s) →
      s.size = r.size ∧ s.part offset n = record.toBytes ∧
        ∀ i, i < offset ∨ offset + n ≤ i → s.get? i = r.get? i) ∧
    (∀ s, record.encode r offset = (none, s) → s = r) ∧
    ∀ record', SameFront record record' → record'.encode r offset = record.encode r offset := by
  have hsame : ∀ record', SameFront record record' →
      record'.encode r offset = record.encode r offset :=
    fun record' h => encode_congr h.toBytes_eq r offset
  have hpos := record.needed_pos
  rcases Nat.lt_or_ge r.size (offset + record.needed) with hfull | hroom
  · have hencode := encode_of_lt hfull
    refine ⟨fun n => ⟨fun h => ?_, ?_⟩, fun n s h => ?_, fun s h => ?_, hsame⟩
    · rw [hencode] at h
      cases h
    · rintro ⟨rfl, hle⟩
      omega
    · rw [hencode] at h
      cases h
    · rw [hencode] at h
      cases h
      rfl
  · obtain ⟨s', hencode, hchanged⟩ := encode_of_le hroom
    refine ⟨fun n => ⟨fun h => ?_, ?_⟩, fun n s h => ?_, fun s h => ?_, hsame⟩
    · rw [hencode] at h
      cases h
      exact ⟨rfl, by omega⟩
    · rintro ⟨rfl, -⟩
      rw [hencode]
    · rw [hencode] at h
      cases h
      exact hchanged
    · rw [hencode] at h
      cases h

/-- Begins with the same bytes as `longFields` does, and goes on otherwise. -/
def longerFields : Record :=
  .spanBegin (List.replicate 255 65 ++ [90]) (List.replicate 300 66) 7

/-- Room for all the bytes that are kept of these fields, and one byte too few. -/
theorem stored_whole_or_not_longFields :
    SameFront longFields longerFields ∧
      (∃ s, longFields.encode (.filled 600 1) 10 = (some 521, s) ∧
        longerFields.encode (.filled 600 1) 10 = (some 521, s) ∧
        s.part 10 521 = longFields.toBytes ∧ s.get? 9 = some 1 ∧ s.get? 531 = some 1) ∧
      longFields.encode (.filled 530 1) 10 = (none, .filled 530 1) := by
  have hfront : SameFront longFields longerFields :=
    .spanBegin 7 (by decide +kernel) (by decide +kernel)
  obtain ⟨hanswer, hstored, -, hsame⟩ := stored_whole_or_not longFields (.filled 600 1) 10
  obtain ⟨hanswer', -, hnone, -⟩ := stored_whole_or_not longFields (.filled 530 1) 10
  refine ⟨hfront, ?_, ?_⟩
  · have hroom := (hanswer 521).2 (by decide +kernel)
    rcases hencode : longFields.encode (.filled 600 1) 10 with ⟨answer, s⟩
    rw [hencode] at hroom
    obtain rfl : answer = some 521 := hroom
    obtain ⟨-, hpart, hrest⟩ := hstored 521 s hencode
    refine ⟨s, rfl, ?_, hpart, hrest 9 (by decide), hrest 531 (by decide)⟩
    rw [hsame longerFields hfront, hencode]
  · rcases hencode : longFields.encode (.filled 530 1) 10 with ⟨answer | n, s⟩
    · rw [hnone s hencode]
    · rw [hencode] at hanswer'
      obtain ⟨hn, hroom⟩ := (hanswer' n).1 rfl
      rw [hn] at hroom
      exact absurd hroom (by decide +kernel)

end ThreadTrace.Wire.Record
