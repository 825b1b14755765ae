import ThreadTrace.IoFailure

/-!
# ThreadTrace.Capture.Destination — where a stream is written to

A destination takes bytes, and any call of it may fail.  Two are given here: `Memory`, which keeps a
record of every call, and `SpoolFile`, which collects small writes before it passes them on to a
disk.
-/

namespace ThreadTrace

abbrev Outcome := Except IoFailure Unit

/-- What a destination can be asked for; each call also says what became of the destination. -/
class Destination (δ : Type) where
  /-- Append bytes.  When this fails, some of them may have been written. -/
  write : δ → List UInt8 → Outcome × δ
  /-- Push what is held back towards its place. -/
  flush : δ → Outcome × δ
  /-- Finish the stream. -/
  close : δ → Outcome × δ
  /-- What happens when nobody holds the destination any more. -/
  release : δ → δ

/-! ### Memory -/

/-- A destination that remembers every call. -/
structure Memory where
  /-- The successful writes in order. -/
  writes : List (List UInt8)
  flushes : Nat
  closes : Nat
  /-- Writing and flushing fail. -/
  failing : Bool
  /-- Closing counts and then fails. -/
  closeFails : Bool
  deriving DecidableEq

namespace Memory

def empty : Memory := ⟨[], 0, 0, false, false⟩

/-- All bytes written. -/
def contents (m : Memory) : List UInt8 := m.writes.flatten

def write (m : Memory) (bs : List UInt8) : Outcome × Memory :=
  if m.failing then (.error (.custom "injected write failure"), m)
  else (.ok (), { m with writes := m.writes ++ [bs] })

def flush (m : Memory) : Outcome × Memory :=
  if m.failing then (.error (.custom "injected flush failure"), m)
  else (.ok (), { m with flushes := m.flushes + 1 })

def close (m : Memory) : Outcome × Memory :=
  (if m.closeFails then .error (.custom "injected close failure") else .ok (),
    { m with closes := m.closes + 1 })

instance : Destination Memory := ⟨write, flush, close, id⟩

end Memory

/-! ### Files -/

/-- How much more a disk takes, and how it refuses what is beyond that. -/
structure Room where
  bytes : Nat
  refusal : IoFailure
  deriving DecidableEq

/-- A file on a disk that may have room for a limited number of bytes only. -/
structure Disk where
  contents : List UInt8
  room : Option Room
  deriving DecidableEq

namespace Disk

/-- As many of the bytes as there is room for are written; the first part of the answer is what was
left over. -/
def append (d : Disk) (bs : List UInt8) : List UInt8 × Outcome × Disk :=
  match d.room with
  | none => ([], .ok (), { d with contents := d.contents ++ bs })
  | some room =>
    (bs.drop room.bytes, if bs.length ≤ room.bytes then .ok () else .error room.refusal,
      ⟨d.contents ++ bs.take room.bytes, some { room with bytes := room.bytes - bs.length }⟩)

/-- A disk that is written to directly. -/
instance : Destination Disk where
  write d bs := (d.append bs).2
  flush d := (.ok (), d)
  close d := (.ok (), d)
  release := id

end Disk

/-- A file whose small writes are held back until enough of them have come together. -/
structure SpoolFile where
  disk : Disk
  /-- Bytes that are not on the disk yet. -/
  held : List UInt8
  deriving DecidableEq

namespace SpoolFile

/-- The most bytes that are held back. -/
def capacity : Nat := 8192

/-- A new file; what it held before is gone. -/
def create (room : Option Room) : SpoolFile := ⟨⟨[], room⟩, []⟩

/-- Put what is held back onto the disk.  What finds no room stays held. -/
def settle (f : SpoolFile) : Outcome × SpoolFile :=
  let (left, result, disk) := f.disk.append f.held
  (result, ⟨disk, left⟩)

/-- Put bytes onto the disk at once. -/
def pass (f : SpoolFile) (bs : List UInt8) : Outcome × SpoolFile :=
  let (_, result, disk) := f.disk.append bs
  (result, { f with disk })

/-- Hold bytes back, or pass them on if they are too many to be held. -/
def accept (f : SpoolFile) (bs : List UInt8) : Outcome × SpoolFile :=
  if capacity ≤ bs.length then f.pass bs else (.ok (), { f with held := f.held ++ bs })

def write (f : SpoolFile) (bs : List UInt8) : Outcome × SpoolFile :=
  if f.held.length + bs.length ≤ capacity then f.accept bs
  else
    match f.settle with
    | (.ok (), f) => f.accept bs
    | (.error failure, f) => (.error failure, f)

/-- Whatever is still held is put onto the disk as far as possible, and nobody learns whether it
was. -/
def release (f : SpoolFile) : SpoolFile := f.settle.2

instance : Destination SpoolFile := ⟨write, settle, settle, release⟩

end SpoolFile

end ThreadTrace
