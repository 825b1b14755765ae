import ThreadTrace.Capture.Buffer
import ThreadTrace.Proofs.Bytes.Region
import ThreadTrace.Stream.Chunk

/-!
# ThreadTrace.Proofs.Capture.Buffer — what a buffer does when it is asked

A buffer that was accepted is `Sound`: its region has room for a chunk header and any event, and its
head is inside.  Sound buffers stay sound, and then there are three things that a request can do to
one: leave it `stamped` with the header of a chunk that could not be written, `emptied` behind one
that was, and with a record `stored` behind what was waiting.  `flush_eq`, `append_eq` and
`perform_eq` say which; no other error than the sink's is left.
-/

namespace ThreadTrace.Buffer

open Wire

/-- The buffer's process and thread. -/
def owner (b : Buffer) : UInt32 × UInt32 := (b.process, b.thread)

/-- The waiting events as the chunk that they become. -/
def chunk (b : Buffer) : Chunk := ⟨b.chunkHeader, b.pending⟩

/-- There is room for any event behind a chunk header, and the head is in the region. -/
structure Sound (b : Buffer) : Prop where
  size_ge : minRegionSize ≤ b.region.size
  size_lt : b.region.size - chunkHeaderSize < UInt32.size
  head_ge : chunkHeaderSize ≤ b.head
  head_le : b.head ≤ b.region.size

variable {b : Buffer}

/-- Soundness is about sizes; the bytes may change. -/
theorem Sound.of_size_eq (hb : b.Sound) {b' : Buffer} (hsize : b'.region.size = b.region.size)
    (hge : chunkHeaderSize ≤ b'.head) (hle : b'.head ≤ b.region.size) : b'.Sound where
  size_ge := by
    rw [hsize]
    exact hb.size_ge
  size_lt := by
    rw [hsize]
    exact hb.size_lt
  head_ge := hge
  head_le := by
    rw [hsize]
    exact hle

theorem new_eq_ok {region : Region} {process thread : UInt32}
    (h : new region process thread = .ok b) :
    b = ⟨region, chunkHeaderSize, process, thread, 0, false⟩ ∧ b.Sound := by
  unfold new at h
  split at h
  · cases h
  · split at h
    · cases h
    · obtain rfl := Except.ok.inj h
      refine ⟨rfl, ?_, ?_, Nat.le_refl _, ?_⟩
      · exact Nat.le_of_not_lt ‹_›
      · exact Nat.lt_of_not_le ‹_›
      · simp only [minRegionSize] at *
        omega

theorem exists_new_iff {region : Region} {process thread : UInt32} :
    (∃ b, new region process thread = .ok b) ↔
      minRegionSize ≤ region.size ∧ region.size - chunkHeaderSize < UInt32.size := by
  unfold new
  by_cases hsmall : region.size < minRegionSize
  · simp [hsmall, Nat.not_le_of_lt hsmall]
  · by_cases hlarge : UInt32.size ≤ region.size - chunkHeaderSize
    · simp [hsmall, hlarge, Nat.not_lt_of_le hlarge]
    · simp [hsmall, hlarge, Nat.le_of_not_lt hsmall, Nat.lt_of_not_le hlarge]

theorem new_eq_error_iff {region : Region} {process thread : UInt32} {e : CaptureError} :
    new region process thread = .error e ↔
      region.size < minRegionSize ∧ e = .bufferTooSmall region.size minRegionSize ∨
        UInt32.size ≤ region.size - chunkHeaderSize ∧ e = .bufferTooLarge region.size := by
  unfold new
  by_cases hsmall : region.size < minRegionSize
  · have hlarge : ¬ UInt32.size ≤ region.size - chunkHeaderSize := by
      have hmin : minRegionSize < UInt32.size := by decide
      omega
    simp [hsmall, hlarge, eq_comm]
  · by_cases hlarge : UInt32.size ≤ region.size - chunkHeaderSize
    · simp [hsmall, hlarge, eq_comm]
    · simp [hsmall, hlarge]

@[simp] theorem length_pending (hb : b.Sound) : b.pending.length = b.length := by
  rw [pending, List.length_drop, Region.length_first, Nat.min_eq_left hb.head_le]
  rfl

theorem length_lt (hb : b.Sound) : b.length < UInt32.size := by
  have h1 := hb.size_lt
  have h2 := hb.head_le
  simp only [length]
  omega

theorem chunk_framed (hb : b.Sound) : b.chunk.Framed := by
  show b.pending.length = (UInt32.ofNat b.length).toNat
  rw [length_pending hb, UInt32.toNat_ofNat_of_lt' (length_lt hb)]

@[simp] theorem chunk_owner (b : Buffer) : b.chunk.owner = b.owner := rfl

theorem pending_of_isEmpty (h : b.isEmpty) : b.pending = [] := by
  have hhead : b.head = chunkHeaderSize := by simpa [isEmpty] using h
  apply List.drop_of_length_le
  rw [Region.length_first, hhead]
  exact Nat.min_le_left _ _

theorem pending_ne_nil (hb : b.Sound) (h : b.isEmpty = false) : b.pending ≠ [] := by
  have hge := hb.head_ge
  rw [isEmpty, beq_eq_false_iff_ne] at h
  refine List.ne_nil_of_length_pos ?_
  rw [length_pending hb, length]
  omega

/-- Only a buffer that holds something can be short of room. -/
theorem isEmpty_of_not_fits (hb : b.Sound) {size : Nat} (hsize : size ≤ maxBeginSize)
    (hfit : ¬ b.head + size ≤ b.region.size) : b.isEmpty = false := by
  have hroom := hb.size_ge
  simp only [minRegionSize] at hroom
  rw [isEmpty, beq_eq_false_iff_ne]
  omega

/-! ### Stamped -/

theorem write?_chunkHeader (hb : b.Sound) :
    b.region.write? 0 b.chunkHeader.toBytes = some b.stamped.region := by
  have hsize := hb.size_ge
  have hroom : 0 + b.chunkHeader.toBytes.length ≤ b.region.size := by
    rw [ChunkHeader.length_toBytes]
    simp only [minRegionSize] at hsize
    omega
  obtain ⟨r, hr⟩ := b.region.write?_eq_some hroom
  simp [stamped, hr]

theorem get?_stamped (hb : b.Sound) (i : Nat) :
    b.stamped.region.get? i =
      if i < chunkHeaderSize then b.chunkHeader.toBytes[i]? else b.region.get? i := by
  have h := Region.get?_write? (write?_chunkHeader hb) i
  simpa using h

/-- What a chunk is written from. -/
theorem first_stamped (hb : b.Sound) : b.stamped.region.first b.head = b.chunk.toBytes := by
  have hge := hb.head_ge
  rw [Region.first_write?_zero (write?_chunkHeader hb) (by rwa [ChunkHeader.length_toBytes])
    hb.head_le, ChunkHeader.length_toBytes]
  rfl

theorem size_stamped (hb : b.Sound) : b.stamped.region.size = b.region.size :=
  Region.size_write? (write?_chunkHeader hb)

theorem stamped_sound (hb : b.Sound) : b.stamped.Sound :=
  hb.of_size_eq (size_stamped hb) hb.head_ge hb.head_le

@[simp] theorem pending_stamped (hb : b.Sound) : b.stamped.pending = b.pending := by
  have hfirst : b.stamped.region.first b.stamped.head = b.chunk.toBytes := first_stamped hb
  rw [pending, hfirst, Chunk.toBytes]
  exact List.drop_left' (ChunkHeader.length_toBytes _)

@[simp] theorem owner_stamped (b : Buffer) : b.stamped.owner = b.owner := rfl

/-! ### Emptied -/

/-- The buffer after its chunk was written. -/
def emptied (b : Buffer) : Buffer := { b.stamped with head := chunkHeaderSize, timed := false }

theorem emptied_sound (hb : b.Sound) : b.emptied.Sound :=
  hb.of_size_eq (size_stamped hb) (Nat.le_refl _) (Nat.le_trans hb.head_ge hb.head_le)

@[simp] theorem pending_emptied (b : Buffer) : b.emptied.pending = [] :=
  pending_of_isEmpty (beq_self_eq_true _)

@[simp] theorem owner_emptied (b : Buffer) : b.emptied.owner = b.owner := rfl

@[simp] theorem head_emptied (b : Buffer) : b.emptied.head = chunkHeaderSize := rfl

/-- An empty buffer has room for any event. -/
theorem emptied_fits (hb : b.Sound) {size : Nat} (hsize : size ≤ maxBeginSize) :
    b.emptied.head + size ≤ b.emptied.region.size := by
  have hsize' : b.emptied.region.size = b.region.size := size_stamped hb
  have hroom := hb.size_ge
  simp only [minRegionSize] at hroom
  rw [hsize', head_emptied]
  omega

/-! ### Stored -/

/-- The buffer with a record behind what is waiting.  The first timestamp of a chunk counts, unless
an earlier chunk had a later one. -/
def stored (b : Buffer) (record : Record) (ticks : Option UInt64) : Buffer where
  region := (b.region.write? b.head record.toBytes).getD b.region
  head := b.head + record.size
  process := b.process
  thread := b.thread
  firstTicks := match ticks with
    | some t => if b.timed then b.firstTicks else max b.firstTicks t
    | none => b.firstTicks
  timed := b.timed || ticks.isSome

variable {record : Record} {ticks : Option UInt64}

theorem write?_record (ticks : Option UInt64) (hfit : b.head + record.size ≤ b.region.size) :
    b.region.write? b.head record.toBytes = some (b.stored record ticks).region := by
  rw [← Record.length_toBytes] at hfit
  obtain ⟨r, hr⟩ := b.region.write?_eq_some hfit
  simp [stored, hr]

theorem get?_stored (hfit : b.head + record.size ≤ b.region.size) (i : Nat) :
    (b.stored record ticks).region.get? i =
      if b.head ≤ i ∧ i < b.head + record.size then record.toBytes[i - b.head]?
      else b.region.get? i := by
  have h := Region.get?_write? (write?_record ticks hfit) i
  simpa using h

theorem stored_sound (hb : b.Sound) (hfit : b.head + record.size ≤ b.region.size) :
    (b.stored record ticks).Sound :=
  hb.of_size_eq (Region.size_write? (write?_record ticks hfit))
    (Nat.le_trans hb.head_ge (Nat.le_add_right _ _)) hfit

theorem pending_stored (hb : b.Sound) (hfit : b.head + record.size ≤ b.region.size) :
    (b.stored record ticks).pending = b.pending ++ record.toBytes := by
  have hge := hb.head_ge
  have hle := hb.head_le
  have hlen := Record.length_toBytes record
  have hfirst : (b.stored record ticks).region.first (b.stored record ticks).head =
      b.region.first b.head ++ record.toBytes := by
    have h := Region.first_write?_end (write?_record ticks hfit) (by rwa [hlen])
    rwa [hlen] at h
  rw [pending, hfirst, List.drop_append_of_le_length, pending]
  rw [Region.length_first]
  omega

@[simp] theorem owner_stored (b : Buffer) (record : Record) (ticks : Option UInt64) :
    (b.stored record ticks).owner = b.owner := rfl

theorem put_of_le (hfit : b.head + record.size ≤ b.region.size) :
    b.put record.size record ticks = (.ok (), b.stored record ticks) := by
  unfold put
  rw [Record.store_eq, write?_record ticks hfit]
  cases ticks with
  | none => simp [stored]
  | some t => cases htimed : b.timed <;> simp [stored, htimed]

/-! ### Requests -/

variable {δ : Type} [Destination δ]

theorem flush_eq (hb : b.Sound) (s : Sink δ) :
    b.flush s =
      if b.isEmpty then (.ok (), b, s)
      else
        match s.write b.chunk.toBytes with
        | (.ok (), s) => (.ok (), b.emptied, s)
        | (.error e, s) => (.error e, b.stamped, s) := by
  unfold flush
  have hlength : ¬ UInt32.size ≤ b.length := Nat.not_le_of_lt (length_lt hb)
  have hfirst : b.stamped.region.first b.stamped.head = b.chunk.toBytes := first_stamped hb
  simp only [hlength, if_false, hfirst]
  rfl

/-- A buffer that was flushed holds nothing. -/
theorem isEmpty_flush (hb : b.Sound) {s : Sink δ} (h : (b.flush s).1 = .ok ()) :
    (b.flush s).2.1.isEmpty := by
  rw [flush_eq hb] at h ⊢
  by_cases hempty : b.isEmpty
  · rw [if_pos hempty]
    exact hempty
  · rw [if_neg hempty] at h ⊢
    rcases hwrite : s.write b.chunk.toBytes with ⟨_ | _, s'⟩
    · rw [hwrite] at h
      cases h
    · exact beq_self_eq_true _

/-- A record that fits is stored.  Otherwise what is waiting has to be written first. -/
theorem append_eq (hb : b.Sound) (s : Sink δ) (hsize : record.size ≤ maxBeginSize)
    (ticks : Option UInt64) :
    b.append s record.size record ticks =
      if b.head + record.size ≤ b.region.size then (.ok (), b.stored record ticks, s)
      else
        match s.write b.chunk.toBytes with
        | (.ok (), s) => (.ok (), b.emptied.stored record ticks, s)
        | (.error e, s) => (.error e, b.stamped, s) := by
  unfold append
  by_cases hfit : b.head + record.size ≤ b.region.size
  · rw [if_neg (Nat.not_lt_of_le hfit), if_pos hfit, put_of_le hfit]
  · have hne := isEmpty_of_not_fits hb hsize hfit
    have hfit' := emptied_fits hb hsize
    rw [if_pos (Nat.lt_of_not_le hfit), if_neg hfit, flush_eq hb, if_neg (by simp [hne])]
    rcases s.write b.chunk.toBytes with ⟨_ | _, s'⟩
    · rfl
    · simp only [put_of_le hfit']

namespace Op

/-- The record that a request wants stored. -/
def record? : Op → Option Record
  | spanBegin text args ticks => some (.spanBegin text args ticks)
  | spanEnd ticks => some (.spanEnd ticks)
  | name kind text => some (.naming kind text)
  | flush => none

/-- When the event happened, if it says so. -/
def ticks? : Op → Option UInt64
  | spanBegin _ _ ticks | spanEnd ticks => some ticks
  | name .. | flush => none

theorem size_le {op : Op} {record : Record} (h : op.record? = some record) :
    record.size ≤ maxBeginSize := by
  cases op with
  | spanBegin text args ticks =>
    obtain rfl := Option.some.inj h
    exact beginSize_le _ _
  | spanEnd ticks =>
    obtain rfl := Option.some.inj h
    show endSize ≤ maxBeginSize
    decide
  | name kind text =>
    obtain rfl := Option.some.inj h
    exact Nat.le_trans (nameSize_le _) (by decide)
  | flush => cases h

end Op

theorem perform_eq {op : Op} (hop : op.record? = some record) (b : Buffer) (s : Sink δ) :
    b.perform s op = b.append s record.size record op.ticks? := by
  cases op with
  | spanBegin text args ticks =>
    obtain rfl := Option.some.inj hop
    rw [Record.size_spanBegin]
    rfl
  | spanEnd ticks =>
    obtain rfl := Option.some.inj hop
    rfl
  | name kind text =>
    obtain rfl := Option.some.inj hop
    rw [Record.size_naming]
    rfl
  | flush => cases hop

end ThreadTrace.Buffer
