import ThreadTrace.Wire.Event

/-!
# ThreadTrace.Stream.Chunk — chunks and traces

A chunk is what one thread handed over at once.  `Trace.toBytes` lays a trace out as a stream; a
chunk is `Framed` when its header tells the size of its payload, as every chunk of a stream does.
-/

namespace ThreadTrace

open Wire

/-- How a process is named in listings. -/
def processLabel (id : UInt32) : String := s!"PID:{id.toNat}"

/-- How a thread is named in listings. -/
def threadLabel (id : UInt32) : String := s!"TID:{id.toNat}"

structure Chunk where
  header : ChunkHeader
  payload : List UInt8
  deriving DecidableEq

namespace Chunk

/-- The chunk's process and thread. -/
def owner (c : Chunk) : UInt32 × UInt32 := (c.header.process, c.header.thread)

/-- The events in order, up to and with the first that cannot be read. -/
def events (c : Chunk) : List (Except DecodeError Event) := decodeEvents c.payload

def Framed (c : Chunk) : Prop := c.payload.length = c.header.payloadSize.toNat

instance (c : Chunk) : Decidable c.Framed := inferInstanceAs (Decidable (_ = _))

def toBytes (c : Chunk) : List UInt8 := c.header.toBytes ++ c.payload

end Chunk

/-- A stream read to its end. -/
structure Trace where
  header : StreamHeader
  chunks : List Chunk
  deriving DecidableEq

def Trace.toBytes (t : Trace) : List UInt8 := t.header.toBytes ++ t.chunks.flatMap Chunk.toBytes

end ThreadTrace
