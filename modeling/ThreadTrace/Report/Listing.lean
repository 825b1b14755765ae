import ThreadTrace.Stream.Chunk
import ThreadTrace.Text.Column
import ThreadTrace.Text.Utf8
import ThreadTrace.Unit

/-!
# ThreadTrace.Report.Listing — events in words

One text for each event, behind the column of its timestamp.
-/

namespace ThreadTrace

open Wire

namespace Listing

/-- The column of the timestamp, which most events leave empty. -/
def ticksColumn : Option UInt64 → String
  | some ticks => Text.padLeft 16 (toString ticks.toNat)
  | none => Text.padLeft 16 ""

def words : Event → String
  | .spanBegin _ name [] => s!"B {Text.lossy name}"
  | .spanBegin _ name args => s!"B {Text.lossy name} ({Text.lossy args})"
  | .spanEnd _ => "E"
  | .instant _ name => s!"I {Text.lossy name}"
  | .threadName name => s!"thread name {Text.lossy name}"
  | .processName name => s!"process name {Text.lossy name}"
  | .unitChange unit => s!"timestamp unit now {Unit.text unit}"
  | .padding size => s!"padding ({size.toNat} bytes)"
  | .custom data => s!"custom data ({data.length} bytes)"
  | .streamOver => "end of stream"

def describe (e : Event) : String := ticksColumn e.ticks? ++ " " ++ words e

/-- The line in front of a chunk's events. -/
def chunkLine (c : Chunk) : String :=
  let h := c.header
  s!"-- {processLabel h.process} {threadLabel h.thread} first_ts={h.firstTicks.toNat} "
    ++ s!"({h.payloadSize.toNat} bytes)"

/-- The lines of a list of items up to the first error, and that error. -/
def eventLines : List (Except DecodeError Event) → List String × Option DecodeError
  | [] => ([], none)
  | .error e :: _ => ([], some e)
  | .ok event :: rest =>
    let (lines, error) := eventLines rest
    (describe event :: lines, error)

/-- The lines of the chunks up to the first error, and that error. -/
def chunkLines : List Chunk → List String × Option DecodeError
  | [] => ([], none)
  | c :: rest =>
    match eventLines c.events with
    | (lines, some e) => (chunkLine c :: lines, some e)
    | (lines, none) =>
      let (more, error) := chunkLines rest
      (chunkLine c :: lines ++ more, error)

end Listing

end ThreadTrace
