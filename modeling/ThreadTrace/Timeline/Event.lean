import ThreadTrace.Stream.Reader
import ThreadTrace.Text.Utf8

/-!
# ThreadTrace.Timeline.Event — a trace as a timeline

A timeline viewer takes one list of events, each with its time in microseconds.  The unit of the
timestamps is carried from event to event, over chunks and threads, until an event changes it.
-/

namespace ThreadTrace

open Wire

namespace Timeline

/-- What a viewer does with an event. -/
inductive Phase where
  | begin
  | finish
  | instant
  /-- Names a thread or process; has no time. -/
  | metadata
  deriving DecidableEq

structure Event where
  name : String
  phase : Phase
  /-- Microseconds. -/
  time : Binary64
  process : UInt32
  thread : UInt32
  /-- One named argument. -/
  arg : Option (String × String)
  deriving DecidableEq

/-- Who recorded an event. -/
structure Owner where
  process : UInt32
  thread : UInt32

def zeroTime : Binary64 := ⟨0⟩

/-- The name of the thread or process under which an event was recorded. -/
def naming (owner : Owner) (what : String) (name : List UInt8) : Event :=
  ⟨what, .metadata, zeroTime, owner.process, owner.thread, some ("name", Text.lossy name)⟩

/-- The event as the viewer sees it; some are not for it. -/
def ofWire? (owner : Owner) (unit : Binary64) : Wire.Event → Option Event
  | .spanBegin ticks name args =>
    some ⟨Text.lossy name, .begin, .ofTicks ticks unit, owner.process, owner.thread,
      if args.isEmpty then none else some ("args", Text.lossy args)⟩
  | .spanEnd ticks =>
    some ⟨"", .finish, .ofTicks ticks unit, owner.process, owner.thread, none⟩
  | .instant ticks name =>
    some ⟨Text.lossy name, .instant, .ofTicks ticks unit, owner.process, owner.thread, none⟩
  | .threadName name => some (naming owner "thread_name" name)
  | .processName name => some (naming owner "process_name" name)
  | .unitChange _ | .padding _ | .custom _ | .streamOver => none

/-- The unit of the events behind this one. -/
def unitAfter (unit : Binary64) : Wire.Event → Binary64
  | .unitChange new => new
  | _ => unit

end Timeline

/-- A timeline in the making. -/
structure Timeline where
  events : List Timeline.Event
  /-- Microseconds per tick, for the events to come. -/
  unit : Binary64

namespace Timeline

def empty (unit : Binary64) : Timeline := ⟨[], unit⟩

/-- The timeline events of a list of items up to the first error, the unit they leave, and that
error. -/
def ofItems (owner : Owner) (unit : Binary64) :
    List (Except DecodeError Wire.Event) → List Event × Binary64 × Option DecodeError
  | [] => ([], unit, none)
  | .error e :: _ => ([], unit, some e)
  | .ok event :: rest =>
    let (more, last, error) := ofItems owner (unitAfter unit event) rest
    ((ofWire? owner unit event).toList ++ more, last, error)

/-- Add a chunk's events, up to the first that cannot be read. -/
def addChunk (t : Timeline) (c : Chunk) : Option DecodeError × Timeline :=
  let owner : Owner := ⟨c.header.process, c.header.thread⟩
  let (events, unit, error) := ofItems owner t.unit c.events
  (error, ⟨t.events ++ events, unit⟩)

/-- Add chunks until one has an event that cannot be read. -/
def addChunks (t : Timeline) : List Chunk → Except DecodeError Timeline
  | [] => .ok t
  | c :: rest =>
    match t.addChunk c with
    | (some e, _) => .error e
    | (none, t) => addChunks t rest

def ofTrace (t : Trace) : Except DecodeError Timeline := (empty t.header.unit).addChunks t.chunks

end Timeline

/-- Why a timeline could not be made or written. -/
inductive TimelineError where
  | read (cause : ReadError)
  | write (failure : IoFailure)
  deriving DecidableEq

namespace TimelineError

def ofDecode (e : DecodeError) : TimelineError := .read (.decode e)

def message : TimelineError → String
  | read cause => s!"Failed to read trace: {cause.message}"
  | write failure => failure.message

def chain : TimelineError → List String
  | read cause => message (read cause) :: cause.chain
  | write failure => [failure.message]

end TimelineError

end ThreadTrace
