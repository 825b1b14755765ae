import ThreadTrace.Capture.Sink
import ThreadTrace.Wire.Record

/-!
# ThreadTrace.Capture.Buffer — one thread's events on their way to the sink

Events are stored in a region that the thread owns, behind the place of a chunk header.  When the
next event would not fit, the buffer first writes what it holds as one chunk.  An event whose chunk
cannot be written is dropped; the events before it stay.
-/

namespace ThreadTrace

open Wire

/-- The smallest region: a chunk header and the longest event. -/
def minRegionSize : Nat := chunkHeaderSize + maxBeginSize

structure Buffer where
  region : Region
  /-- Where the next event goes; right behind the chunk header when there are none. -/
  head : Nat
  process : UInt32
  thread : UInt32
  /-- What the next chunk header gives as its first timestamp. -/
  firstTicks : UInt64
  /-- Whether the chunk in the making holds an event with a timestamp. -/
  timed : Bool

namespace Buffer

/-- A buffer in a region that has room for any event and can be described by a chunk header. -/
def new (region : Region) (process thread : UInt32) : Except CaptureError Buffer :=
  if region.size < minRegionSize then .error (.bufferTooSmall region.size minRegionSize)
  else if UInt32.size ≤ region.size - chunkHeaderSize then .error (.bufferTooLarge region.size)
  else .ok ⟨region, chunkHeaderSize, process, thread, 0, false⟩

/-- The number of bytes waiting to be written. -/
def length (b : Buffer) : Nat := b.head - chunkHeaderSize

def isEmpty (b : Buffer) : Bool := b.head == chunkHeaderSize

def capacity (b : Buffer) : Nat := b.region.size

/-- The encoded events waiting to be written. -/
def pending (b : Buffer) : List UInt8 := (b.region.first b.head).drop chunkHeaderSize

/-- The header of the chunk in the making. -/
def chunkHeader (b : Buffer) : ChunkHeader where
  payloadSize := UInt32.ofNat b.length
  thread := b.thread
  process := b.process
  firstTicks := b.firstTicks

/-- The buffer with the chunk header in its place. -/
def stamped (b : Buffer) : Buffer :=
  { b with region := (b.region.write? 0 b.chunkHeader.toBytes).getD b.region }

variable {δ : Type} [Destination δ]

/-- Write the waiting events as one chunk.  They stay if the sink does not take them; only the place
of the chunk header has then changed. -/
def flush (b : Buffer) (s : Sink δ) : Except CaptureError Unit × Buffer × Sink δ :=
  if b.isEmpty then (.ok (), b, s)
  else if UInt32.size ≤ b.length then (.error (.bufferTooLarge b.region.size), b, s)
  else
    let b := b.stamped
    match s.write (b.region.first b.head) with
    | (.ok (), s) => (.ok (), { b with head := chunkHeaderSize, timed := false }, s)
    | (.error e, s) => (.error e, b, s)

/-- Store a record at the head.  The first timestamp of a chunk counts, unless an earlier chunk had
a later one. -/
def put (b : Buffer) (size : Nat) (record : Record) (ticks : Option UInt64) :
    Except CaptureError Unit × Buffer :=
  match record.store b.region b.head with
  | none => (.error (.bufferTooSmall b.region.size (b.head + size)), b)
  | some (region, used) =>
    match ticks with
    | some t =>
      if b.timed then (.ok (), { b with region, head := b.head + used })
      else
        (.ok (), { b with
          region
          head := b.head + used
          firstTicks := max b.firstTicks t
          timed := true })
    | none => (.ok (), { b with region, head := b.head + used })

/-- Store a record of the given size, after writing the waiting events if there is no room. -/
def append (b : Buffer) (s : Sink δ) (size : Nat) (record : Record) (ticks : Option UInt64) :
    Except CaptureError Unit × Buffer × Sink δ :=
  if b.region.size < b.head + size then
    match b.flush s with
    | (.ok (), b, s) => let (result, b) := b.put size record ticks; (result, b, s)
    | (.error e, b, s) => (.error e, b, s)
  else
    let (result, b) := b.put size record ticks
    (result, b, s)

/-- Record the begin of a span. -/
def spanBegin (b : Buffer) (s : Sink δ) (name args : List UInt8) (ticks : UInt64) :
    Except CaptureError Unit × Buffer × Sink δ :=
  b.append s (beginSize name.length args.length) (.spanBegin name args ticks) (some ticks)

/-- Record the end of the innermost open span. -/
def spanEnd (b : Buffer) (s : Sink δ) (ticks : UInt64) :
    Except CaptureError Unit × Buffer × Sink δ :=
  b.append s endSize (.spanEnd ticks) (some ticks)

/-- Name the buffer's thread or process. -/
def name (b : Buffer) (s : Sink δ) (kind : NameKind) (name : List UInt8) :
    Except CaptureError Unit × Buffer × Sink δ :=
  b.append s (nameSize name.length) (.naming kind name) none

/-- Write what is waiting and hand the region back.  If that fails the buffer is still there and can
be asked again. -/
def quit (b : Buffer) (s : Sink δ) : Except CaptureError Region × Buffer × Sink δ :=
  match b.flush s with
  | (.ok (), b, s) => (.ok b.region, b, s)
  | (.error e, b, s) => (.error e, b, s)

/-! ### Runs -/

/-- What can be asked of a buffer. -/
inductive Op where
  | spanBegin (name args : List UInt8) (ticks : UInt64)
  | spanEnd (ticks : UInt64)
  | name (kind : NameKind) (name : List UInt8)
  | flush
  deriving DecidableEq

def perform (b : Buffer) (s : Sink δ) : Op → Except CaptureError Unit × Buffer × Sink δ
  | .spanBegin name args ticks => b.spanBegin s name args ticks
  | .spanEnd ticks => b.spanEnd s ticks
  | .name kind name => b.name s kind name
  | .flush => b.flush s

end Buffer

end ThreadTrace
