import ThreadTrace.Bytes.Region
import ThreadTrace.Wire.Event

/-!
# ThreadTrace.Wire.Record — putting headers and events into memory

A record is stored whole or not at all.  Its size can be told from the lengths of its fields before
they are cut (`size_spanBegin`, `size_naming`), which is what lets a writer make room first.
-/

namespace ThreadTrace.Wire

/-- Whom a name event names. -/
inductive NameKind where
  | thread
  | process
  deriving DecidableEq

def NameKind.tag : NameKind → Tag
  | thread => .threadName
  | process => .processName

/-- What a writer puts into a stream. -/
inductive Record where
  | streamHeader (h : StreamHeader)
  | chunkHeader (h : ChunkHeader)
  | spanBegin (name args : List UInt8) (ticks : UInt64)
  | spanEnd (ticks : UInt64)
  | naming (kind : NameKind) (name : List UInt8)
  | padding (size : UInt32)
  | unitChange (unit : Binary64)
  deriving DecidableEq

/-- A field as it is stored. -/
def cut (bs : List UInt8) : List UInt8 := bs.take maxField

@[simp] theorem length_cut (bs : List UInt8) : (cut bs).length = min maxField bs.length := by
  simp [cut]

namespace Record

/-- The number of bytes a record takes. -/
def size : Record → Nat
  | streamHeader _ => streamHeaderSize
  | chunkHeader _ => chunkHeaderSize
  | spanBegin name args _ => beginSize (cut name).length (cut args).length
  | spanEnd _ => endSize
  | naming _ name => nameSize (cut name).length
  | padding n => paddingHeaderSize + n.toNat
  | unitChange _ => unitChangeSize

/-- The bytes of a record. -/
def toBytes : Record → List UInt8
  | streamHeader h => h.toBytes
  | chunkHeader h => h.toBytes
  | spanBegin name args ticks =>
    Tag.spanBegin.code :: LittleEndian.ofUInt64 ticks ++
      [UInt8.ofNat (cut name).length, UInt8.ofNat (cut args).length] ++ cut name ++ cut args
  | spanEnd ticks => Tag.spanEnd.code :: LittleEndian.ofUInt64 ticks
  | naming kind name => kind.tag.code :: UInt8.ofNat (cut name).length :: cut name
  | padding n =>
    Tag.padding.code :: LittleEndian.ofUInt32 n ++ List.replicate n.toNat 0
  | unitChange unit => Tag.unitChange.code :: LittleEndian.ofUInt64 unit.bits

theorem size_spanBegin (name args : List UInt8) (ticks : UInt64) :
    (spanBegin name args ticks).size = beginSize name.length args.length := by
  simp only [size, beginSize, length_cut]
  omega

theorem size_naming (kind : NameKind) (name : List UInt8) :
    (naming kind name).size = nameSize name.length := by
  simp only [size, nameSize, length_cut]
  omega

@[simp] theorem length_toBytes (r : Record) : r.toBytes.length = r.size := by
  cases r <;> simp [toBytes, size, beginSize, nameSize, beginHeaderSize, nameHeaderSize, endSize,
    paddingHeaderSize, unitChangeSize] <;> omega

/-- The event that a record announces, its fields cut; headers announce none. -/
def event? : Record → Option Event
  | streamHeader _ | chunkHeader _ => none
  | spanBegin name args ticks => some (.spanBegin ticks (cut name) (cut args))
  | spanEnd ticks => some (.spanEnd ticks)
  | naming .thread name => some (.threadName (cut name))
  | naming .process name => some (.processName (cut name))
  | padding n => some (.padding n)
  | unitChange unit => some (.unitChange unit)

/-- The region with the record at an offset, and the number of bytes it took there. -/
def store (record : Record) (r : Region) (offset : Nat) : Option (Region × Nat) :=
  if offset + record.size ≤ r.size then
    (r.write? offset record.toBytes).map (·, record.size)
  else none

/-- Records are stored whole or not at all. -/
theorem store_eq (record : Record) (r : Region) (offset : Nat) :
    record.store r offset = (r.write? offset record.toBytes).map (·, record.size) := by
  unfold store
  split
  · rfl
  · rename_i h
    simp [Region.write?, h]

end Record

end ThreadTrace.Wire
