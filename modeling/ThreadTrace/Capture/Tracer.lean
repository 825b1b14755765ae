import ThreadTrace.Capture.Buffer
import ThreadTrace.Symbol.Cache
import ThreadTrace.Text.Utf8

/-!
# ThreadTrace.Capture.Tracer — recording functions by their addresses

A tracer is a buffer together with a cache of names and somebody to ask for new ones.  A function
whose name cannot be had is recorded all the same.
-/

namespace ThreadTrace

open Wire

/-- What is recorded for a function without a name. -/
def unknownName : String := "(unknown name)"

structure Tracer (ρ : Type) where
  buffer : Buffer
  cache : Cache
  resolver : ρ

namespace Tracer

variable {δ ρ : Type} [Destination δ] [Resolver ρ]

def new (region : Region) (process thread : UInt32) (cacheCapacity : Nat) (resolver : ρ) :
    Except CaptureError (Tracer ρ) :=
  (Buffer.new region process thread).map (⟨·, Cache.new cacheCapacity, resolver⟩)

/-- The recorded name of a function; the cache and the resolver remember that it was asked for. -/
def nameFor (t : Tracer ρ) (address : UInt64) : String × Tracer ρ :=
  match t.cache.resolve address t.resolver with
  | (.ok name, cache, resolver) => (name, { t with cache, resolver })
  | (.error _, cache, resolver) => (unknownName, { t with cache, resolver })

/-- Put a changed buffer in its place. -/
def withBuffer {α : Type} (t : Tracer ρ) :
    Except CaptureError α × Buffer × Sink δ → Except CaptureError α × Tracer ρ × Sink δ
  | (result, buffer, s) => (result, { t with buffer }, s)

/-- Record that a function was entered. -/
def enter (t : Tracer ρ) (s : Sink δ) (address ticks : UInt64) :
    Except CaptureError Unit × Tracer ρ × Sink δ :=
  let (name, t) := t.nameFor address
  t.withBuffer (t.buffer.spanBegin s (Text.bytes name) [] ticks)

/-- Record that the function entered last was left. -/
def leave (t : Tracer ρ) (s : Sink δ) (ticks : UInt64) :
    Except CaptureError Unit × Tracer ρ × Sink δ :=
  t.withBuffer (t.buffer.spanEnd s ticks)

def nameThread (t : Tracer ρ) (s : Sink δ) (name : List UInt8) :
    Except CaptureError Unit × Tracer ρ × Sink δ :=
  t.withBuffer (t.buffer.name s .thread name)

def flush (t : Tracer ρ) (s : Sink δ) : Except CaptureError Unit × Tracer ρ × Sink δ :=
  t.withBuffer (t.buffer.flush s)

def quit (t : Tracer ρ) (s : Sink δ) : Except CaptureError Region × Tracer ρ × Sink δ :=
  t.withBuffer (t.buffer.quit s)

/-! ### Runs -/

/-- What can be asked of a tracer. -/
inductive Op where
  | enter (address ticks : UInt64)
  | leave (ticks : UInt64)
  | nameThread (name : List UInt8)
  | flush
  deriving DecidableEq

def perform (t : Tracer ρ) (s : Sink δ) : Op → Except CaptureError Unit × Tracer ρ × Sink δ
  | .enter address ticks => t.enter s address ticks
  | .leave ticks => t.leave s ticks
  | .nameThread name => t.nameThread s name
  | .flush => t.flush s

end Tracer

end ThreadTrace
