import ThreadTrace.Binary64
import ThreadTrace.Wire.Cursor
import ThreadTrace.Wire.Layout

/-!
# ThreadTrace.Wire.Header — the header of a stream and of a chunk

The stream header carries the unit of all timestamps, as a bit pattern; a chunk header says whose
events follow, how many bytes they take, and when the first of them happened.
-/

namespace ThreadTrace.Wire

structure StreamHeader where
  /-- Microseconds per tick. -/
  unit : Binary64
  deriving DecidableEq

def StreamHeader.toBytes (h : StreamHeader) : List UInt8 :=
  LittleEndian.ofUInt64 magic ++ LittleEndian.ofUInt64 version ++
    LittleEndian.ofUInt64 h.unit.bits ++ LittleEndian.ofUInt64 0

@[simp] theorem StreamHeader.length_toBytes (h : StreamHeader) :
    h.toBytes.length = streamHeaderSize := by
  simp [StreamHeader.toBytes, streamHeaderSize]

/-- The stream header at the front of some bytes.  A wrong word is reported before a missing one
behind it. -/
def scanStreamHeader : Scan StreamHeader := do
  let first ← word64
  if first ≠ magic then throw (.badMagic first)
  let second ← word64
  if second ≠ version then throw (.unsupportedVersion second)
  let unit ← word64
  let reserved ← word64
  if reserved ≠ 0 then throw (.nonZeroReserved reserved)
  return ⟨⟨unit⟩⟩

def decodeStreamHeader (src : List UInt8) : Except DecodeError StreamHeader :=
  (scanStreamHeader.run' ⟨src, 0⟩)

structure ChunkHeader where
  payloadSize : UInt32
  thread : UInt32
  process : UInt32
  firstTicks : UInt64
  deriving DecidableEq

def ChunkHeader.toBytes (h : ChunkHeader) : List UInt8 :=
  LittleEndian.ofUInt32 h.payloadSize ++ LittleEndian.ofUInt32 h.thread ++
    LittleEndian.ofUInt32 h.process ++ LittleEndian.ofUInt64 h.firstTicks

@[simp] theorem ChunkHeader.length_toBytes (h : ChunkHeader) :
    h.toBytes.length = chunkHeaderSize := by
  simp [ChunkHeader.toBytes, chunkHeaderSize]

def scanChunkHeader : Scan ChunkHeader := do
  let payloadSize ← word32
  let thread ← word32
  let process ← word32
  let firstTicks ← word64
  return ⟨payloadSize, thread, process, firstTicks⟩

def decodeChunkHeader (src : List UInt8) : Except DecodeError ChunkHeader :=
  scanChunkHeader.run' ⟨src, 0⟩

end ThreadTrace.Wire
