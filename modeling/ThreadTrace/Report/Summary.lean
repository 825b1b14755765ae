import ThreadTrace.Report.Keyed
import ThreadTrace.Stream.Chunk
import ThreadTrace.Text.Column
import ThreadTrace.Text.Utf8
import ThreadTrace.Unit

/-!
# ThreadTrace.Report.Summary — what each thread contributed

Counts of chunks and events by thread, and the names that threads and processes gave themselves.  A
trace with an event that cannot be read has no summary.
-/

namespace ThreadTrace

open Wire

structure ThreadSummary where
  /-- The last name given to the thread. -/
  name : Option String
  chunks : Nat
  begins : Nat
  ends : Nat
  /-- All other events. -/
  other : Nat
  /-- The least first timestamp of the thread's chunks. -/
  firstTicks : UInt64
  deriving DecidableEq

namespace ThreadSummary

def events (t : ThreadSummary) : Nat := t.begins + t.ends + t.other

/-- The thread after one more chunk begins. -/
def openChunk (c : Chunk) : Option ThreadSummary → ThreadSummary
  | none => ⟨none, 1, 0, 0, 0, c.header.firstTicks⟩
  | some t => { t with
      chunks := t.chunks + 1
      firstTicks := min t.firstTicks c.header.firstTicks }

def addEvent (t : ThreadSummary) : Event → ThreadSummary
  | .spanBegin .. => { t with begins := t.begins + 1 }
  | .spanEnd _ => { t with ends := t.ends + 1 }
  | .threadName name => { t with name := some (Text.lossy name), other := t.other + 1 }
  | _ => { t with other := t.other + 1 }

def empty : ThreadSummary := ⟨none, 0, 0, 0, 0, 0⟩

end ThreadSummary

structure Summary where
  unit : Binary64
  /-- Processes in order of their numbers, and the last names given to them. -/
  processNames : Keyed UInt32 String
  /-- Threads in order of their processes and numbers. -/
  threads : Keyed (UInt32 × UInt32) ThreadSummary
  deriving DecidableEq

namespace Summary

def processRank (process : UInt32) : Nat := process.toNat

def ownerRank (owner : UInt32 × UInt32) : Nat := owner.1.toNat * UInt32.size + owner.2.toNat

def openChunk (s : Summary) (c : Chunk) : Summary :=
  { s with threads := s.threads.update ownerRank c.owner (ThreadSummary.openChunk c) }

def addEvent (owner : UInt32 × UInt32) (s : Summary) (e : Event) : Summary where
  unit := s.unit
  processNames :=
    match e with
    | .processName name => s.processNames.update processRank owner.1 fun _ => Text.lossy name
    | _ => s.processNames
  threads := s.threads.update ownerRank owner fun t => (t.getD .empty).addEvent e

/-- The summary after one more chunk. -/
def addChunk (s : Summary) (c : Chunk) : Except DecodeError Summary :=
  c.events.foldlM (fun s item => item.map (s.addEvent c.owner)) (s.openChunk c)

def ofTrace (t : Trace) : Except DecodeError Summary :=
  t.chunks.foldlM addChunk ⟨t.header.unit, [], []⟩

def totalEvents (s : Summary) : Nat := (s.threads.map (·.2.events)).foldr (· + ·) 0

def totalChunks (s : Summary) : Nat := (s.threads.map (·.2.chunks)).foldr (· + ·) 0

/-! ### The text of a summary -/

def row (process thread name chunks begins ends other : String) : String :=
  " ".intercalate [Text.padRight 12 process, Text.padRight 12 thread, Text.padRight 20 name,
    Text.padLeft 7 chunks, Text.padLeft 9 begins, Text.padLeft 9 ends, Text.padLeft 7 other]

/-- The lines of one thread: its counts, and a note if spans were not all closed. -/
def threadLines (owner : UInt32 × UInt32) (t : ThreadSummary) : List String :=
  row (processLabel owner.1) (threadLabel owner.2) (t.name.getD "-") (toString t.chunks)
      (toString t.begins) (toString t.ends) (toString t.other) ::
    if t.begins = t.ends then []
    else [s!"    unbalanced: {t.begins} begin vs {t.ends} end events"]

def lines (s : Summary) : List String :=
  [s!"Timestamp unit: {Unit.text s.unit} µs/tick",
    s!"{s.totalChunks} chunks, {s.totalEvents} events, {s.threads.length} threads",
    "",
    row "PROCESS" "THREAD" "NAME" "CHUNKS" "BEGIN" "END" "OTHER"] ++
  s.threads.flatMap (fun (owner, t) => threadLines owner t) ++
  s.processNames.map fun (process, name) => s!"{processLabel process} named {Text.quoted name}"

def text (s : Summary) : String := String.join (s.lines.map (· ++ "\n"))

end Summary

end ThreadTrace
