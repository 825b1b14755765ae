import ThreadTrace.Bytes.ByteOrder
import ThreadTrace.Bytes.Slice

/-!
# ThreadTrace.Elf.Image — the parts of an executable file

A file begins with a header, which says where its tables of segments and sections are.  The fields
of both come in two widths, at different places, and in either order of bytes.  A table that does
not lie within the file makes the whole file unreadable; a section that does not is only unreadable
itself.
-/

namespace ThreadTrace.Elf

/-- How wide addresses are in a file. -/
inductive Width where
  | bits32
  | bits64
  deriving DecidableEq

/-- Which of two things goes with a width. -/
def Width.pick {α : Type} : Width → α → α → α
  | bits32, a, _ => a
  | bits64, _, b => b

/-- A field of a record: its place and its size in bytes, for either width. -/
structure Field where
  place32 : Nat
  place64 : Nat
  size32 : Nat
  size64 : Nat

/-- A field that holds an address, a place or a size. -/
def Field.wide (place32 place64 : Nat) : Field := ⟨place32, place64, 4, 8⟩

def Field.word (place32 place64 : Nat) : Field := ⟨place32, place64, 4, 4⟩

def Field.half (place32 place64 : Nat) : Field := ⟨place32, place64, 2, 2⟩

/-- How the records of a file are laid out. -/
structure Format where
  width : Width
  order : ByteOrder
  deriving DecidableEq

def Format.get (f : Format) (record : List UInt8) (field : Field) : Nat :=
  let place := f.width.pick field.place32 field.place64
  let size := f.width.pick field.size32 field.size64
  f.order.toNat ((record.drop place).take size)

/-- A part of a file that is loaded into memory, from a place in the file to an address. -/
structure Segment where
  offset : Nat
  address : Nat
  deriving DecidableEq

structure Section where
  nameOffset : Nat
  kind : Nat
  offset : Nat
  size : Nat
  /-- The number of the section that belongs to this one. -/
  link : Nat
  deriving DecidableEq

namespace Section

/-- A table of symbols. -/
def symbolTable : Nat := 2

def stringTable : Nat := 3

/-- A section that takes no room in the file. -/
def withoutContent : Nat := 8

/-- Symbols for linking while the program runs. -/
def dynamicSymbols : Nat := 11

def ofRecord (f : Format) (record : List UInt8) : Section where
  nameOffset := f.get record (.word 0 0)
  kind := f.get record (.word 4 4)
  offset := f.get record (.wide 16 24)
  size := f.get record (.wide 20 32)
  link := f.get record (.word 24 40)

def content? (s : Section) (file : List UInt8) : Option (List UInt8) :=
  if s.kind = withoutContent then some [] else Slice.at? file s.offset s.size

/-- The texts in a section.  Its end has to be a number of 64 bits; if it is not in the file, no
text can be read. -/
def texts? (s : Section) (file : List UInt8) : Option (List UInt8) :=
  if s.offset + s.size < UInt64.size then some ((Slice.at? file s.offset s.size).getD []) else none

end Section

structure Image where
  format : Format
  /-- What the file is for, by the number for it. -/
  purpose : Nat
  /-- The parts that are loaded, in the order of the file. -/
  segments : List Segment
  sections : List Section
  /-- The names of the sections. -/
  names : List UInt8
  file : List UInt8

namespace Image

/-- The purpose of files that can be loaded at any address. -/
def relocatable : Nat := 3

/-- The kind of segments that are loaded. -/
def loadable : Nat := 1

/-- The first bytes say that this is such a file, and how to read it. -/
def format? (file : List UInt8) : Option Format :=
  match file with
  | 0x7F :: 0x45 :: 0x4C :: 0x46 :: width :: order :: version :: _ => do
    let width ← match width with
      | 1 => some Width.bits32
      | 2 => some Width.bits64
      | _ => none
    let order ← match order with
      | 1 => some ByteOrder.littleEndian
      | 2 => some ByteOrder.bigEndian
      | _ => none
    if version = 1 ∧ width.pick 52 64 ≤ file.length then some ⟨width, order⟩ else none
  | _ => none

/-- The records of a table of `count` records.  A file may have no table. -/
def table? (file : List UInt8) (start count size : Nat) (hasSize : Bool) :
    Option (List (List UInt8)) :=
  if start = 0 ∨ count = 0 then some []
  else if hasSize then (Slice.at? file start (count * size)).map (Slice.chunks size)
  else none

def segments? (f : Format) (file : List UInt8) : Option (List Segment) := do
  let size := f.width.pick 32 56
  let records ← table? file (f.get file (.wide 28 32)) (f.get file (.half 44 56)) size
    (f.get file (.half 42 54) == size)
  let loaded := records.filter fun r => f.get r (.word 0 0) == loadable
  return loaded.map fun r => ⟨f.get r (.wide 4 8), f.get r (.wide 8 16)⟩

/-- The sections.  When there are too many for the header, the first one has their number in place
of its size. -/
def sections? (f : Format) (file : List UInt8) : Option (List Section) := do
  let size := f.width.pick 40 64
  let start := f.get file (.wide 32 40)
  let hasSize := f.get file (.half 46 58) == size
  let count ← match f.get file (.half 48 60) with
    | 0 => do
      let first ← table? file start 1 size hasSize
      pure ((first.head?.map fun r => (Section.ofRecord f r).size).getD 0)
    | n => some n
  let records ← table? file start count size hasSize
  return records.map (Section.ofRecord f)

/-- The names of sections; the header gives the section that they are in, or 0. -/
def names? (f : Format) (file : List UInt8) (sections : List Section) : Option (List UInt8) :=
  match f.get file (.half 50 62) with
  | 0 => some []
  | n => if sections.isEmpty then some [] else do (← sections[n]?).texts? file

def ofBytes? (file : List UInt8) : Option Image := do
  let f ← format? file
  let segments ← segments? f file
  let sections ← sections? f file
  let names ← names? f file sections
  return ⟨f, f.get file (.half 16 16), segments, sections, names, file⟩

/-- The content of the first section of a name; there is none if it cannot be read. -/
def contentOf (i : Image) (name : String) : List UInt8 :=
  let bytes := name.toList.flatMap String.utf8EncodeChar
  match i.sections.find? fun s => Slice.textAt? i.names s.nameOffset = some bytes with
  | some s => (s.content? i.file).getD []
  | none => []

def isRelocatable (i : Image) : Bool := i.purpose == relocatable

/-- The address that the beginning of the file has when it is loaded where it was linked for. -/
def linkBase (i : Image) : UInt64 :=
  match i.segments.find? (·.offset == 0) with
  | some s => UInt64.ofNat s.address
  | none => 0

end Image

end ThreadTrace.Elf
