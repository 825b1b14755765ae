import ThreadTrace.Stream.Chunk
import ThreadTrace.Stream.Source

/-!
# ThreadTrace.Stream.Reader — reading a stream back

The reader takes the stream header once and then a chunk at a time.  What was read stays read: after
an error the next request goes on behind the bytes that caused it.  `readAll` wants a whole stream;
`chunks` can also take one whose writer stopped in the middle of a chunk.
-/

namespace ThreadTrace

open Wire

/-- Why a stream cannot be read. -/
inductive ReadError where
  | decode (cause : DecodeError)
  | chunkCutShort (expected actual : Nat)
  | io (failure : IoFailure)
  deriving DecidableEq

namespace ReadError

def message : ReadError → String
  | decode cause => s!"Malformed trace: {cause.message}"
  | chunkCutShort expected actual =>
    s!"Chunk truncated: header declares {expected} payload bytes, {actual} present"
  | io failure => failure.message

/-- The error's message and those of the errors behind it. -/
def chain : ReadError → List String
  | decode cause => [message (decode cause), cause.message]
  | e => [e.message]

/-- Whether the bytes are not a stream at all, rather than a damaged one. -/
def isForeign : ReadError → Bool
  | decode (.badMagic _) | decode (.unsupportedVersion _) | decode (.nonZeroReserved _) => true
  | _ => false

/-- Whether a stream ended in the middle of a chunk. -/
def isCutShort : ReadError → Bool
  | chunkCutShort .. | decode (.truncated ..) => true
  | _ => false

end ReadError

structure Reader where
  source : Source
  /-- The stream header, once it has been read. -/
  header : Option StreamHeader
  deriving DecidableEq

namespace Reader

def ofSource (s : Source) : Reader := ⟨s, none⟩

def ofBytes (bs : List UInt8) : Reader := ofSource (.ofBytes bs)

/-- The next `n` bytes, or fewer at the end of the source. -/
def fill (n : Nat) (r : Reader) : Except ReadError (List UInt8) × Reader :=
  match r.source.fill n with
  | (.ok bs, source) => (.ok bs, { r with source })
  | (.error failure, source) => (.error (.io failure), { r with source })

/-- The stream header; only the first success reads it. -/
def readHeader (r : Reader) : Except ReadError StreamHeader × Reader :=
  match r.header with
  | some header => (.ok header, r)
  | none =>
    match r.fill streamHeaderSize with
    | (.error e, r) => (.error e, r)
    | (.ok bs, r) =>
      match decodeStreamHeader bs with
      | .ok header => (.ok header, { r with header := some header })
      | .error e => (.error (.decode e), r)

/-- The payload that a chunk header announces. -/
def readPayload (header : ChunkHeader) (r : Reader) : Except ReadError (Option Chunk) × Reader :=
  match r.fill header.payloadSize.toNat with
  | (.error e, r) => (.error e, r)
  | (.ok payload, r) =>
    if payload.length < header.payloadSize.toNat then
      (.error (.chunkCutShort header.payloadSize.toNat payload.length), r)
    else (.ok (some ⟨header, payload⟩), r)

/-- The next chunk, or nothing when the stream ends where a chunk does. -/
def next (r : Reader) : Except ReadError (Option Chunk) × Reader :=
  match r.readHeader with
  | (.error e, r) => (.error e, r)
  | (.ok _, r) =>
    match r.fill chunkHeaderSize with
    | (.error e, r) => (.error e, r)
    | (.ok [], r) => (.ok none, r)
    | (.ok bs, r) =>
      match decodeChunkHeader bs with
      | .error e => (.error (.decode e), r)
      | .ok header => r.readPayload header

/-- The first items of the sequence of chunks: it goes on after an error and ends at the end of the
stream. -/
def items : Nat → Reader → List (Except ReadError Chunk) × Reader
  | 0, r => ([], r)
  | n + 1, r =>
    match r.next with
    | (.ok none, r) => ([], r)
    | (.ok (some c), r) => let (rest, r) := items n r; (.ok c :: rest, r)
    | (.error e, r) => let (rest, r) := items n r; (.error e :: rest, r)

/-- The chunks up to the end of the stream, where `n` requests are enough to get there.  The first
error ends the reading, unless `tolerates` lets it pass for the end. -/
def chunksWithin (tolerates : ReadError → Bool) : Nat → Reader → Except ReadError (List Chunk)
  | 0, _ => .ok []
  | n + 1, r =>
    match r.next with
    | (.ok none, _) => .ok []
    | (.ok (some c), r) => (chunksWithin tolerates n r).map (c :: ·)
    | (.error e, _) => if tolerates e then .ok [] else .error e

/-- All chunks to come.  Each takes a byte of the source at least, so there are no more than that. -/
def chunks (tolerates : ReadError → Bool) (r : Reader) : Except ReadError (List Chunk) :=
  r.chunksWithin tolerates (r.source.rest.length + 1)

/-- The whole stream. -/
def readAll (r : Reader) : Except ReadError Trace :=
  match r.readHeader with
  | (.error e, _) => .error e
  | (.ok header, r) => (r.chunks (fun _ => false)).map (⟨header, ·⟩)

end Reader

end ThreadTrace
