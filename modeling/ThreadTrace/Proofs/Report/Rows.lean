import ThreadTrace.CommandLine.Inspect
import ThreadTrace.Proofs.Decimal.Style
import ThreadTrace.Proofs.Report.Listing
import ThreadTrace.Proofs.Report.Texts
import ThreadTrace.Proofs.Text.Rows
import Mathlib.Algebra.Order.BigOperators.Group.List

/-!
# ThreadTrace.Proofs.Report.Rows — the rows of a listing

What the program itself puts into a line has no line break; the texts of an event have those that
their bytes have (`breaks_describe`).  So a listing has as many rows as `entries`, and one more for
each break in a text (`rows_listingPage`), and a name can hold any line behind a break
(`line_spanAbove`).  `broken_by_texts` says all of this of a trace.
-/

namespace ThreadTrace

open Wire

namespace Unit

theorem breaks_text (unit : Binary64) : Text.breaks (text unit) = 0 := by
  obtain hword | hnumeral := style.render_cases unit
  · have hwords : ∀ s ∈ [style.nan, style.infinity, style.minusInfinity], Text.breaks s = 0 := by
      decide +kernel
    exact hwords _ hword
  · rw [Text.breaks_eq_zero_iff]
    intro c hc
    obtain hdigit | hsign := hnumeral c hc
    · exact Text.isBreak_of_isDigit hdigit
    · simp only [List.mem_cons, List.not_mem_nil, or_false] at hsign
      obtain rfl | rfl | rfl | rfl := hsign <;> rfl

end Unit

/-- The texts of an event that are in its line. -/
def Wire.Event.texts : Event → List (List UInt8)
  | spanBegin _ name args => [name, args]
  | instant _ name | threadName name | processName name => [name]
  | _ => []

/-- The line breaks in these texts. -/
def Wire.Event.breaks (e : Event) : Nat := e.texts.flatten.countP Text.isBreakByte

namespace Listing

/-! ### One line -/

/-- A text behind words without a line break. -/
theorem breaks_named {label : String} (hlabel : Text.breaks label = 0) (name : List UInt8) :
    Text.breaks (label ++ Text.lossy name) = [name].flatten.countP Text.isBreakByte := by
  rw [Text.breaks_append, hlabel, Nat.zero_add, Text.breaks_lossy, List.flatten_singleton]

/-- A number between words without a line break. -/
theorem breaks_numbered {before after : String} (hbefore : Text.breaks before = 0)
    (hafter : Text.breaks after = 0) (n : Nat) :
    Text.breaks (before ++ toString n ++ after) = 0 := by
  rw [Text.breaks_append, Text.breaks_append, hbefore, Text.breaks_toString, hafter]

theorem breaks_words (e : Event) : Text.breaks (words e) = e.breaks := by
  -- each case is stated by definition; the equations of `words` would work out a unit's text
  cases e with
  | spanBegin ticks name args =>
    have htexts : (Event.spanBegin ticks name args).breaks =
        name.countP Text.isBreakByte + args.countP Text.isBreakByte := by
      simp [Event.breaks, Event.texts]
    rw [TextRecord.words_spanBegin, htexts, ← Text.breaks_lossy, ← Text.breaks_lossy]
    split_ifs with hargs
    · subst hargs
      show Text.breaks ("B " ++ Text.lossy name) = _
      rw [Text.breaks_append]
      exact Nat.zero_add _
    · have hlabels : Text.breaks "B " = 0 ∧ Text.breaks " (" = 0 ∧ Text.breaks ")" = 0 := by
        decide
      show Text.breaks ("B " ++ Text.lossy name ++ " (" ++ Text.lossy args ++ ")") = _
      simp only [Text.breaks_append, hlabels, Nat.zero_add, Nat.add_zero]
  | instant ticks name => exact breaks_named (by decide) name
  | threadName name => exact breaks_named (by decide) name
  | processName name => exact breaks_named (by decide) name
  | unitChange unit =>
    show Text.breaks ("timestamp unit now " ++ Unit.text unit) = 0
    rw [Text.breaks_append, Unit.breaks_text]
    decide
  | padding size => exact breaks_numbered (by decide) (by decide) size.toNat
  | custom data => exact breaks_numbered (by decide) (by decide) data.length
  | spanEnd ticks =>
    show Text.breaks "E" = 0
    decide
  | streamOver =>
    show Text.breaks "end of stream" = 0
    decide

theorem breaks_ticksColumn (ticks : Option UInt64) : Text.breaks (ticksColumn ticks) = 0 := by
  cases ticks with
  | none => decide
  | some ticks => rw [ticksColumn, Text.breaks_padLeft, Text.breaks_toString]

/-- A line has the breaks of its texts and no other. -/
theorem breaks_describe (e : Event) : Text.breaks (describe e) = e.breaks := by
  rw [describe, Text.breaks_append, Text.breaks_append, breaks_ticksColumn, breaks_words]
  exact Nat.zero_add _

theorem breaks_chunkLine (c : Chunk) : Text.breaks (chunkLine c) = 0 := by
  have hlabels : ∀ s ∈ ["-- ", "PID:", " ", "TID:", " first_ts=", " ", "(", " bytes)"],
      Text.breaks s = 0 := by decide
  simp only [List.forall_mem_cons] at hlabels
  show Text.breaks ("-- " ++ ("PID:" ++ toString c.header.process.toNat) ++ " " ++
    ("TID:" ++ toString c.header.thread.toNat) ++ " first_ts=" ++
    toString c.header.firstTicks.toNat ++ " " ++
    ("(" ++ toString c.header.payloadSize.toNat ++ " bytes)")) = 0
  simp only [Text.breaks_append, Text.breaks_toString, hlabels]

/-! ### All lines -/

/-- What a line of the listing is about. -/
inductive Entry where
  | chunk (c : Chunk)
  | event (e : Event)

namespace Entry

def line : Entry → String
  | chunk c => chunkLine c
  | event e => describe e

/-- The line breaks in the texts of the entry. -/
def breaks : Entry → Nat
  | chunk _ => 0
  | event e => e.breaks

theorem breaks_line (entry : Entry) : Text.breaks entry.line = entry.breaks := by
  cases entry with
  | chunk c => exact breaks_chunkLine c
  | event e => exact breaks_describe e

end Entry

/-- The chunks up to the first with an event that cannot be read. -/
def listed : List Chunk → List Chunk
  | [] => []
  | c :: cs => c :: if c.Clean then listed cs else []

/-- One entry for each of these chunks, and one for each of its events that can be read. -/
def entries (cs : List Chunk) : List Entry :=
  (listed cs).flatMap fun c => .chunk c :: c.cleanEvents.map .event

theorem fst_chunkLines (cs : List Chunk) : (chunkLines cs).1 = (entries cs).map Entry.line := by
  induction cs with
  | nil => rfl
  | cons c cs ih =>
    have hlines : (c.cleanEvents.map Entry.event).map Entry.line = c.cleanEvents.map describe :=
      List.map_map
    rw [entries, listed, List.flatMap_cons, List.map_append, List.map_cons, hlines]
    obtain ⟨hclean, -, hevents⟩ | ⟨hnot, e, -, hevents⟩ := c.events_cases
    · rw [chunkLines, hevents, eventLines_map_ok, if_pos hclean]
      exact congrArg (chunkLine c :: c.cleanEvents.map describe ++ ·) ih
    · rw [chunkLines, hevents, eventLines_of_error, if_neg hnot]
      exact (List.append_nil _).symm

theorem rows_listingPage (t : Trace) :
    Text.rows (CommandLine.listingPage t).text =
      (entries t.chunks).flatMap (Text.rows ·.line) ++ [""] := by
  show Text.rows (String.join ((chunkLines t.chunks).1.map (· ++ "\n"))) = _
  rw [Text.rows_join, fst_chunkLines, List.flatMap_map]

theorem length_flatMap_rows (entries : List Entry) :
    (entries.flatMap (Text.rows ·.line)).length =
      entries.length + (entries.map Entry.breaks).sum := by
  induction entries with
  | nil => rfl
  | cons entry entries ih =>
    rw [List.flatMap_cons, List.length_append, ih, Text.length_rows, entry.breaks_line,
      List.length_cons, List.map_cons, List.sum_cons]
    omega

/-- Every entry has a row of its own if no text has a line break, and only then. -/
theorem flatMap_rows_eq_iff (entries : List Entry) :
    entries.flatMap (Text.rows ·.line) = entries.map Entry.line ↔
      ∀ entry ∈ entries, entry.breaks = 0 := by
  constructor
  · intro h
    have hlength := length_flatMap_rows entries
    rw [h, List.length_map, Nat.left_eq_add] at hlength
    intro entry hentry
    have hle : entry.breaks ≤ (entries.map Entry.breaks).sum :=
      List.le_sum_of_mem (List.mem_map_of_mem hentry)
    omega
  · intro h
    rw [List.map_eq_flatMap]
    exact List.flatMap_congr fun entry hentry =>
      Text.rows_eq_singleton (entry.breaks_line.trans (h entry hentry))

/-! ### Lines in a name -/

/-- A span whose name goes on in another row. -/
def spanAbove (name below : String) (ticks : UInt64) : TextRecord :=
  .spanBegin (name ++ "\n" ++ below) "" ticks

/-- A text that fits is shown as it is, with its line feeds. -/
theorem line_spanAbove {name below : String} (ticks : UInt64)
    (hfits : (Text.bytes (name ++ "\n" ++ below)).length ≤ maxField) :
    (spanAbove name below ticks).line =
      (TextRecord.spanBegin name "" ticks).line ++ "\n" ++ below := by
  have hname : (Text.bytes name).length ≤ maxField := by
    refine Nat.le_trans ?_ hfits
    simp only [Text.bytes, String.toList_append, List.flatMap_append, List.length_append]
    omega
  have hshown : ∀ s, (Text.bytes s).length ≤ maxField →
      (TextRecord.spanBegin s "" ticks).line = ticksColumn (some ticks) ++ " " ++ ("B " ++ s) := by
    intro s hs
    show ticksColumn (some ticks) ++ " " ++ ("B " ++ shownText s) = _
    rw [shownText, (Text.clipped_clip maxField s).whole hs]
  rw [spanAbove, hshown _ hfits, hshown _ hname]
  simp only [String.append_assoc]

theorem eventLines_stored (r : TextRecord) :
    eventLines (decodeEvents r.stored.toBytes) = ([r.line], none) := by
  have hevents := TextRecord.decodeEvents_stored [r]
  rw [List.flatMap_singleton] at hevents
  rw [hevents, eventLines_map_ok, List.map_singleton, List.map_singleton, r.describe_event]

/-- **Every line break in a name or an argument is one in the listing.**  An event's line has the
breaks of its texts.  So a listing has one row for each chunk and each event, and as many more as
there are breaks: the rows are the lines of its entries only if there are none.  A name that fits
can bring any other line with it. -/
theorem broken_by_texts (t : Trace) :
    (∀ e : Event, Text.breaks (describe e) = e.breaks) ∧
    (Text.rows (CommandLine.listingPage t).text).length =
      (entries t.chunks).length + ((entries t.chunks).map Entry.breaks).sum + 1 ∧
    (Text.rows (CommandLine.listingPage t).text = (entries t.chunks).map Entry.line ++ [""] ↔
      ∀ entry ∈ entries t.chunks, entry.breaks = 0) ∧
    ∀ (name : String) (entry : Entry) (ticks : UInt64),
      (Text.bytes (name ++ "\n" ++ entry.line)).length ≤ maxField →
        eventLines (decodeEvents (spanAbove name entry.line ticks).stored.toBytes) =
          ([(TextRecord.spanBegin name "" ticks).line ++ "\n" ++ entry.line], none) := by
  refine ⟨breaks_describe, ?_, ?_, fun name entry ticks hfits => ?_⟩
  · rw [rows_listingPage, List.length_append, length_flatMap_rows, List.length_singleton]
  · rw [rows_listingPage, List.append_cancel_right_eq, flatMap_rows_eq_iff]
  · rw [eventLines_stored, line_spanAbove ticks hfits]

/-- The line of a chunk that is not in the trace. -/
def absent : Entry := .chunk ⟨⟨0, 9, 9, 0⟩, []⟩

/-- One chunk with one event, in whose name this line stands. -/
def forged : Batch := ⟨⟨48, 2, 1, 5⟩, [spanAbove "f" absent.line 5]⟩

/-- The trace has one chunk and one event, and its listing looks as if it had another chunk. -/
theorem listingPage_forged :
    (Text.bytes ("f" ++ "\n" ++ absent.line)).length ≤ maxField ∧
      eventLines (decodeEvents forged.chunk.payload) =
        (["               5 B f\n-- PID:9 TID:9 first_ts=0 (0 bytes)"], none) ∧
      Text.rows (CommandLine.listingPage (Batch.trace .one [forged])).text =
        ["-- PID:1 TID:2 first_ts=5 (48 bytes)", "               5 B f",
          "-- PID:9 TID:9 first_ts=0 (0 bytes)", ""] := by
  have hfits : (Text.bytes ("f" ++ "\n" ++ absent.line)).length ≤ maxField := by decide +kernel
  obtain ⟨-, -, -, hlines⟩ := broken_by_texts (Batch.trace .one [forged])
  have hline : eventLines forged.chunk.events = _ := hlines "f" absent 5 hfits
  refine ⟨hfits, hline.trans (by decide +kernel), ?_⟩
  have hchunks : chunkLines (Batch.trace .one [forged]).chunks =
      ([chunkLine forged.chunk, (TextRecord.spanBegin "f" "" 5).line ++ "\n" ++ absent.line],
        none) := by
    show chunkLines [forged.chunk] = _
    rw [chunkLines, hline]
    rfl
  rw [CommandLine.listingPage, hchunks]
  decide +kernel

end Listing

end ThreadTrace
