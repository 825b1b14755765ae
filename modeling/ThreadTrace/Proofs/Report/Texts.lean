import ThreadTrace.Proofs.Report.Account
import ThreadTrace.Proofs.Text.Clip

/-!
# ThreadTrace.Proofs.Report.Texts — recorded texts as they are shown

A program records texts; what is stored of them are the first bytes, and what is shown is text
again.  A `TextRecord` is a record before its texts become bytes, and here are the timeline, the
listing and the names of a summary in terms of these.  Every text in them is a `clip` of a recorded
one.
-/

namespace ThreadTrace

open Wire

/-- What is shown of a text of which a field was stored. -/
def shownText (s : String) : String := Text.clip maxField s

theorem lossy_cut_bytes (s : String) : Text.lossy (cut (Text.bytes s)) = shownText s :=
  Text.lossy_take_bytes maxField s

theorem cut_bytes_eq_nil_iff {s : String} : cut (Text.bytes s) = [] ↔ s = "" :=
  Text.take_bytes_eq_nil_iff (by decide)

/-- All of a timeline event but its time. -/
def Timeline.Event.timeless (e : Timeline.Event) : Timeline.Event :=
  { e with time := Timeline.zeroTime }

/-- A record with texts in place of bytes. -/
inductive TextRecord where
  | spanBegin (name args : String) (ticks : UInt64)
  | spanEnd (ticks : UInt64)
  | naming (kind : NameKind) (name : String)
  | padding (size : UInt32)
  | unitChange (unit : Binary64)
  deriving DecidableEq

namespace TextRecord

def stored : TextRecord → Record
  | spanBegin name args ticks => .spanBegin (Text.bytes name) (Text.bytes args) ticks
  | spanEnd ticks => .spanEnd ticks
  | naming kind name => .naming kind (Text.bytes name)
  | padding size => .padding size
  | unitChange unit => .unitChange unit

/-! ### A record as it is shown -/

/-- The record in a timeline, without its time. -/
def shown? (owner : UInt32 × UInt32) : TextRecord → Option Timeline.Event
  | spanBegin name args _ =>
    some ⟨shownText name, .begin, Timeline.zeroTime, owner.1, owner.2,
      if args = "" then none else some ("args", shownText args)⟩
  | spanEnd _ => some ⟨"", .finish, Timeline.zeroTime, owner.1, owner.2, none⟩
  | naming .thread name =>
    some ⟨"thread_name", .metadata, Timeline.zeroTime, owner.1, owner.2,
      some ("name", shownText name)⟩
  | naming .process name =>
    some ⟨"process_name", .metadata, Timeline.zeroTime, owner.1, owner.2,
      some ("name", shownText name)⟩
  | padding _ | unitChange _ => none

/-- The record in words. -/
def words : TextRecord → String
  | spanBegin name args _ =>
    if args = "" then s!"B {shownText name}" else s!"B {shownText name} ({shownText args})"
  | spanEnd _ => "E"
  | naming .thread name => s!"thread name {shownText name}"
  | naming .process name => s!"process name {shownText name}"
  | padding size => s!"padding ({size.toNat} bytes)"
  | unitChange unit => s!"timestamp unit now {Unit.text unit}"

def ticks? : TextRecord → Option UInt64
  | spanBegin _ _ ticks | spanEnd ticks => some ticks
  | naming .. | padding _ | unitChange _ => none

/-- The record's line in a listing. -/
def line (r : TextRecord) : String := Listing.ticksColumn r.ticks? ++ " " ++ r.words

/-- The text that the record gives to its thread, or to its process. -/
def given? (kind : NameKind) : TextRecord → Option String
  | naming kind' name => if kind' = kind then some name else none
  | _ => none

/-- The last name that some records give, as it is shown. -/
def lastGiven (kind : NameKind) (rs : List TextRecord) : Option String :=
  (rs.filterMap (given? kind)).getLast?.map shownText

/-! ### A record as an event -/

/-- What is read of the record. -/
def event : TextRecord → Event
  | spanBegin name args ticks => .spanBegin ticks (cut (Text.bytes name)) (cut (Text.bytes args))
  | spanEnd ticks => .spanEnd ticks
  | naming .thread name => .threadName (cut (Text.bytes name))
  | naming .process name => .processName (cut (Text.bytes name))
  | padding size => .padding size
  | unitChange unit => .unitChange unit

theorem event?_stored (r : TextRecord) : r.stored.event? = some r.event := by
  cases r with
  | naming kind name => cases kind <;> rfl
  | _ => rfl

theorem decodeEvents_stored (rs : List TextRecord) :
    decodeEvents (rs.flatMap (·.stored.toBytes)) = (rs.map event).map .ok := by
  induction rs with
  | nil => rw [List.flatMap_nil, decodeEvents]; rfl
  | cons r rs ih =>
    rw [List.flatMap_cons, (reads_scanEvent r.event?_stored).decodeEvents_append, ih]
    rfl

theorem ofWire?_event (owner : UInt32 × UInt32) (unit : Binary64) (r : TextRecord) :
    (Timeline.ofWire? ⟨owner.1, owner.2⟩ unit r.event).map Timeline.Event.timeless =
      r.shown? owner := by
  cases r with
  | spanBegin name args ticks =>
    have hargs : (cut (Text.bytes args)).isEmpty ↔ args = "" :=
      List.isEmpty_iff.trans cut_bytes_eq_nil_iff
    simp only [event, Timeline.ofWire?, shown?, Timeline.Event.timeless, lossy_cut_bytes, hargs,
      Option.map_some]
  | naming kind name =>
    cases kind <;>
      simp only [event, Timeline.ofWire?, Timeline.naming, shown?, Timeline.Event.timeless,
        lossy_cut_bytes, Option.map_some]
  | _ => rfl

/-- Arguments are put in brackets if there are any. -/
theorem words_spanBegin (ticks : UInt64) (name args : List UInt8) :
    Listing.words (.spanBegin ticks name args) =
      if args = [] then s!"B {Text.lossy name}"
      else s!"B {Text.lossy name} ({Text.lossy args})" := by
  cases args <;> rfl

theorem words_event (r : TextRecord) : Listing.words r.event = r.words := by
  cases r with
  | spanBegin name args ticks =>
    rw [event, words_spanBegin, lossy_cut_bytes, lossy_cut_bytes]
    -- by definition; rewriting with `words` would work out the text of every unit
    show _ = if args = "" then s!"B {shownText name}" else s!"B {shownText name} ({shownText args})"
    by_cases hargs : args = ""
    · rw [if_pos hargs, if_pos (cut_bytes_eq_nil_iff.2 hargs)]
    · rw [if_neg hargs, if_neg (mt cut_bytes_eq_nil_iff.1 hargs)]
  | naming kind name =>
    cases kind with
    | thread => exact congrArg (fun shown => s!"thread name {shown}") (lossy_cut_bytes name)
    | process => exact congrArg (fun shown => s!"process name {shown}") (lossy_cut_bytes name)
  | _ => rfl

theorem ticks?_event (r : TextRecord) : r.event.ticks? = r.ticks? := by
  cases r with
  | naming kind name => cases kind <;> rfl
  | _ => rfl

theorem describe_event (r : TextRecord) : Listing.describe r.event = r.line := by
  rw [Listing.describe, words_event, ticks?_event, line]

theorem lastName_events {given : Event → Option (List UInt8)} {kind : NameKind}
    (h : ∀ r : TextRecord, given r.event = (r.given? kind).map fun name => cut (Text.bytes name))
    (rs : List TextRecord) : lastName given (rs.map event) = lastGiven kind rs := by
  have hgiven : (rs.map event).filterMap given =
      (rs.filterMap (given? kind)).map fun name => cut (Text.bytes name) := by
    rw [List.filterMap_map, List.map_filterMap]
    exact List.filterMap_congr fun r _ => h r
  rw [lastName, hgiven, List.getLast?_map, Option.map_map, lastGiven]
  congr 1
  funext name
  exact lossy_cut_bytes name

theorem threadName?_event (r : TextRecord) :
    r.event.threadName? = (r.given? .thread).map fun name => cut (Text.bytes name) := by
  cases r with
  | naming kind name => cases kind <;> rfl
  | _ => rfl

theorem processName?_event (r : TextRecord) :
    r.event.processName? = (r.given? .process).map fun name => cut (Text.bytes name) := by
  cases r with
  | naming kind name => cases kind <;> rfl
  | _ => rfl

end TextRecord

/-! ### Chunks of records -/

/-- What a thread records for one chunk. -/
structure Batch where
  header : ChunkHeader
  records : List TextRecord

namespace Batch

def chunk (b : Batch) : Chunk := ⟨b.header, b.records.flatMap (·.stored.toBytes)⟩

def owner (b : Batch) : UInt32 × UInt32 := (b.header.process, b.header.thread)

theorem events_chunk (b : Batch) : b.chunk.events = (b.records.map TextRecord.event).map .ok :=
  TextRecord.decodeEvents_stored b.records

theorem cleanEvents_chunk (b : Batch) : b.chunk.cleanEvents = b.records.map TextRecord.event := by
  rw [Chunk.cleanEvents, events_chunk, Chunk.filterMap_toOption_map_ok]

theorem clean_chunk (b : Batch) : b.chunk.Clean := by
  intro item hitem
  rw [events_chunk] at hitem
  obtain ⟨e, -, rfl⟩ := List.mem_map.1 hitem
  exact ⟨e, rfl⟩

/-- The stream of some batches. -/
def trace (unit : Binary64) (bs : List Batch) : Trace := ⟨⟨unit⟩, bs.map chunk⟩

theorem clean_trace (unit : Binary64) (bs : List Batch) :
    ∀ c ∈ (trace unit bs).chunks, c.Clean := by
  intro c hc
  obtain ⟨b, -, rfl⟩ := List.mem_map.1 hc
  exact b.clean_chunk

/-! ### The three views -/

theorem events_addEvents (owner : UInt32 × UInt32) (t : Timeline) (rs : List TextRecord) :
    ((rs.map TextRecord.event).foldl (Timeline.add owner) t).events.map Timeline.Event.timeless =
      t.events.map Timeline.Event.timeless ++ rs.filterMap (TextRecord.shown? owner) := by
  induction rs generalizing t with
  | nil => exact (List.append_nil _).symm
  | cons r rs ih =>
    have hadd : (t.add owner r.event).events.map Timeline.Event.timeless =
        t.events.map Timeline.Event.timeless ++ (r.shown? owner).toList := by
      rw [Timeline.add, List.map_append, ← Option.toList_map, TextRecord.ofWire?_event]
    rw [List.map_cons, List.foldl_cons, ih, hadd, List.append_assoc, List.filterMap_cons]
    cases r.shown? owner <;> rfl

theorem events_withChunks (t : Timeline) (bs : List Batch) :
    (t.withChunks (bs.map chunk)).events.map Timeline.Event.timeless =
      t.events.map Timeline.Event.timeless ++
        bs.flatMap fun b => b.records.filterMap (TextRecord.shown? b.owner) := by
  induction bs generalizing t with
  | nil => exact (List.append_nil _).symm
  | cons b bs ih =>
    have hchunk : (t.withChunk b.chunk).events.map Timeline.Event.timeless =
        t.events.map Timeline.Event.timeless ++
          b.records.filterMap (TextRecord.shown? b.owner) := by
      rw [Timeline.withChunk, cleanEvents_chunk]
      exact events_addEvents b.owner t b.records
    refine (ih (t.withChunk b.chunk)).trans ?_
    rw [hchunk, List.flatMap_cons, List.append_assoc]

theorem chunkLines_chunks (bs : List Batch) :
    Listing.chunkLines (bs.map chunk) =
      (bs.flatMap fun b => Listing.chunkLine b.chunk :: b.records.map TextRecord.line, none) := by
  induction bs with
  | nil => rfl
  | cons b bs ih =>
    have hlines : (b.records.map TextRecord.event).map Listing.describe =
        b.records.map TextRecord.line := by
      rw [List.map_map]
      exact List.map_congr_left fun r _ => r.describe_event
    rw [List.map_cons, Listing.chunkLines, events_chunk, Listing.eventLines_map_ok, hlines]
    simp only [ih, List.flatMap_cons]

/-- The records of those batches whose owner is asked for. -/
theorem cleanEvents_filter (p : UInt32 × UInt32 → Bool) (bs : List Batch) :
    ((bs.map chunk).filter (p ·.owner)).flatMap Chunk.cleanEvents =
      ((bs.filter (p ·.owner)).flatMap records).map TextRecord.event := by
  rw [List.filter_map, List.flatMap_map, List.map_flatMap]
  exact List.flatMap_congr fun b _ => b.cleanEvents_chunk

/-- **What is shown of a recorded text is the text, or the whole characters of it that fit.**  A
text that fits is shown as it is.  Of a longer one the longest front of whole characters is shown
that is not longer than a field, and one U+FFFD behind it if the field ends inside a character.  In
the timeline, in the listing and in the summary of a trace every recorded text is shown so; of the
names of a thread or process a summary has the last. -/
theorem recorded_texts_shown (unit : Binary64) (bs : List Batch) :
    (∀ s, Text.Clipped maxField s (shownText s)) ∧
    (∃ t, Timeline.ofTrace (trace unit bs) = .ok t ∧
      t.events.map Timeline.Event.timeless =
        bs.flatMap fun b => b.records.filterMap (TextRecord.shown? b.owner)) ∧
    Listing.chunkLines (trace unit bs).chunks =
      (bs.flatMap fun b => Listing.chunkLine b.chunk :: b.records.map TextRecord.line, none) ∧
    ∃ s, Summary.ofTrace (trace unit bs) = .ok s ∧
      (∀ owner, (s.threads.get? Summary.ownerRank owner).bind ThreadSummary.name =
        TextRecord.lastGiven .thread ((bs.filter (·.owner = owner)).flatMap records)) ∧
      ∀ process, s.processNames.get? Summary.processRank process =
        TextRecord.lastGiven .process ((bs.filter (·.owner.1 = process)).flatMap records) := by
  have hclean := clean_trace unit bs
  refine ⟨Text.clipped_clip maxField, ?_, chunkLines_chunks bs, ?_⟩
  · exact ⟨_, Timeline.ofTrace_eq_ok_iff.2 ⟨hclean, rfl⟩, events_withChunks _ bs⟩
  · refine ⟨_, Summary.ofTrace_eq_ok_iff.2 ⟨hclean, rfl⟩, fun owner => ?_, fun process => ?_⟩
    · rw [Summary.get?_threads_of_chunks, ThreadSummary.name_withChunks, Option.bind_none,
        Option.or_none]
      exact (congrArg _ (cleanEvents_filter (· = owner) bs)).trans
        (TextRecord.lastName_events TextRecord.threadName?_event _)
    · rw [Summary.get?_processNames_of_chunks]
      exact (congrArg _ (cleanEvents_filter (·.1 = process) bs)).trans
        (TextRecord.lastName_events TextRecord.processName?_event _)

end Batch

end ThreadTrace
