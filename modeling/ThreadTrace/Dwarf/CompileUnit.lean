import ThreadTrace.Dwarf.Entry
import ThreadTrace.Dwarf.Interval

/-!
# ThreadTrace.Dwarf.CompileUnit — what is said about one compiled source

The entries of a unit follow a header that says how they are written.  The first of them is about
the unit as a whole: its language, the addresses of its code, and where its lists are.  A unit that
cannot be understood is left out; a header that cannot be read makes all units unreadable, since
nothing says where the next one begins.
-/

namespace ThreadTrace.Dwarf

/-- The sections of a file that hold debug information. -/
structure Sections where
  order : ByteOrder
  info : List UInt8
  abbreviations : List UInt8
  /-- Texts that all units share. -/
  texts : List UInt8
  /-- Texts of tables of lines. -/
  lineTexts : List UInt8
  /-- Places of texts, for units that number theirs. -/
  textPlaces : List UInt8
  /-- Addresses, for units that number theirs. -/
  addresses : List UInt8
  /-- Lists of ranges of units up to version 4. -/
  pairedRanges : List UInt8
  /-- Lists of ranges of units since version 5. -/
  codedRanges : List UInt8

structure Header where
  /-- Where the unit begins among all units. -/
  start : Nat
  version : Nat
  addressSize : Nat
  /-- How many bytes a place in a section takes. -/
  placeSize : Nat
  /-- Where the unit's abbreviations are. -/
  abbreviations : Nat
  /-- Units of other kinds than compiled sources are left out. -/
  isCompiled : Bool
  /-- How many bytes of the unit are in front of its entries. -/
  size : Nat
  content : List UInt8

namespace Header

/-- An address takes 1, 2, 4 or 8 bytes. -/
def addressSizeField : Scan Nat := do
  let n ← Scan.byte
  if n ∈ [1, 2, 4, 8] then return n else Scan.fail

/-- The part of a header behind the length of the unit, which takes `lengthSize` bytes.  Since
version 5 the kind of a unit is written, by numbers from 1 to 6, and 1 is a compiled source. -/
def fields (order : ByteOrder) (start lengthSize placeSize : Nat) : Scan Header := do
  let version ← Scan.word order 2
  if version = 5 then
    let kind ← Scan.byte
    let addressSize ← addressSizeField
    let abbreviations ← Scan.word order placeSize
    if kind = 0 ∨ 6 < kind then Scan.fail
    return ⟨start, version, addressSize, placeSize, abbreviations, kind == 1,
      lengthSize + 4 + placeSize, ← get⟩
  else if 2 ≤ version ∧ version ≤ 4 then
    let abbreviations ← Scan.word order placeSize
    let addressSize ← addressSizeField
    return ⟨start, version, addressSize, placeSize, abbreviations, true,
      lengthSize + 3 + placeSize, ← get⟩
  else Scan.fail

/-- A unit, which takes as many bytes as it says.  The highest lengths are kept for other formats;
in the one that is known lengths and places take 8 bytes. -/
def scan (order : ByteOrder) (start : Nat) : Scan Header := do
  let length ← Scan.word order 4
  if length = 0xFFFFFFFF then
    let unit ← Scan.take (← Scan.word order 8)
    return (← Scan.within unit (fields order start 12 8)).1
  else if 0xFFFFFFF0 ≤ length then Scan.fail
  else
    let unit ← Scan.take length
    return (← Scan.within unit (fields order start 4 4)).1

def scanFrom (order : ByteOrder) : Nat → Nat → Scan (List Header)
  | 0, _ => return []
  | steps + 1, start => do
    if (← get).isEmpty then return []
    let h ← scan order start
    return h :: (← scanFrom order steps (start + h.size + h.content.length))

/-- The headers of all units; each takes a byte at least. -/
def ofSections (s : Sections) : Reading (List Header) :=
  (scanFrom s.order s.info.length 0).run' s.info

end Header

structure CompileUnit where
  encoding : Encoding
  /-- Where the unit begins among all units. -/
  start : Nat
  /-- How many bytes of the unit are in front of its entries. -/
  headerSize : Nat
  content : List UInt8
  sections : Sections
  /-- What the first entry says. -/
  about : List (Property × Value)

namespace CompileUnit

/-- Where one of the unit's lists begins. -/
def baseOf (u : CompileUnit) (property : Property) : Nat :=
  match (u.about.filter (·.1 == property)).getLast? with
  | some (_, .sectionPlace n) => n
  | _ => 0

/-- A word of a list: `size` bytes at the place of a number. -/
def wordOf? (u : CompileUnit) (list : List UInt8) (base size number : Nat) : Option Nat :=
  (Slice.at? list (base + size * number) size).map u.encoding.order.toNat

/-- One of the unit's addresses. -/
def addressOf (u : CompileUnit) (number : Nat) : Reading UInt64 :=
  ofOption <| (u.wordOf? u.sections.addresses (u.baseOf .addressesBase) u.encoding.addressSize
    number).map UInt64.ofNat

/-- A text, if a value is one and can be found. -/
def text? (u : CompileUnit) : Value → Option (List UInt8)
  | .text bytes => some bytes
  | .textAt place => Slice.textAt? u.sections.texts place
  | .lineTextAt place => Slice.textAt? u.sections.lineTexts place
  | .textNumber n => do
    Slice.textAt? u.sections.texts
      (← u.wordOf? u.sections.textPlaces (u.baseOf .textsBase) u.encoding.placeSize n)
  | _ => none

/-- The number of the language, if it is given. -/
def language? (u : CompileUnit) : Option Nat :=
  u.about.foldl (fun known a =>
    match a with
    | (.language, .number n) => if n < UInt16.size then some n else known
    | _ => known) none

/-- The address where the unit begins; lists of ranges count from there. -/
def base (u : CompileUnit) : Reading UInt64 :=
  match (u.about.filter (·.1 == .lowest)).getLast? with
  | some (_, .address a) => .ok a
  | some (_, .addressNumber n) => u.addressOf n
  | _ => .ok 0

/-- The unit behind a header.  It can be understood if its abbreviations and its first entry can. -/
def ofHeader (s : Sections) (h : Header) : Reading CompileUnit := do
  if h.abbreviations > s.abbreviations.length ∨ !h.isCompiled then throw .damaged
  let (known, _) ← Scan.within (s.abbreviations.drop h.abbreviations) Abbreviation.table
  let encoding : Encoding := ⟨s.order, h.version, h.addressSize, h.placeSize, known⟩
  let (root, _) ← Scan.within h.content (Entry.scan encoding)
  let unit : CompileUnit :=
    ⟨encoding, h.start, h.size, h.content, s, (← ofOption root).attributes⟩
  let _ ← unit.base
  return unit

/-- How many bytes the unit takes. -/
def size (u : CompileUnit) : Nat := u.headerSize + u.content.length

/-- The entry at a place in a unit. -/
def entryAt (u : CompileUnit) (place : Nat) : Reading Entry := do
  if place < u.headerSize ∨ u.size ≤ place then throw .damaged
  let (entry, _) ← Scan.within (u.content.drop (place - u.headerSize)) (Entry.scan u.encoding)
  ofOption entry

/-! ### Code -/

/-- The greatest address. -/
def highestAddress (u : CompileUnit) : Nat := (1 <<< (8 * u.encoding.addressSize)) - 1

/-- The address that linkers put where code has been left out. -/
def removed (u : CompileUnit) : Nat :=
  if u.encoding.version ≤ 4 then u.highestAddress - 1 else u.highestAddress

/-- What stands in a list of ranges. -/
inductive RangeItem where
  /-- From here on ranges count from this address. -/
  | base (address : Nat)
  /-- A range that counts from there. -/
  | offsets (low high : Nat)
  | range (start stop : Nat)

def scanAddress (u : CompileUnit) : Scan Nat := Scan.word u.encoding.order u.encoding.addressSize

def scanAddressNumber (u : CompileUnit) : Scan Nat := do
  return (← u.addressOf (← Scan.number64)).toNat

/-- An item up to version 4, or the end: a pair of addresses.  One that begins with the greatest
address says from where the others count. -/
def pairedItem (u : CompileUnit) : Scan (Option RangeItem) := do
  let low ← u.scanAddress
  let high ← u.scanAddress
  if low = 0 ∧ high = 0 then return none
  else if low = u.highestAddress then return some (.base high)
  else return some (.offsets low high)

/-- An item since version 5, or the end: its kind comes first. -/
def codedItem (u : CompileUnit) : Scan (Option RangeItem) := do
  match ← Scan.byte with
  | 0 => return none
  | 1 => return some (.base (← u.scanAddressNumber))
  | 2 => return some (.range (← u.scanAddressNumber) (← u.scanAddressNumber))
  | 3 => do
    let start ← u.scanAddressNumber
    return some (.range start (start + (← Scan.number64)))
  | 4 => return some (.offsets (← Scan.number64) (← Scan.number64))
  | 5 => return some (.base (← u.scanAddress))
  | 6 => return some (.range (← u.scanAddress) (← u.scanAddress))
  | 7 => do
    let start ← u.scanAddress
    return some (.range start (start + (← Scan.number64)))
  | _ => Scan.fail

/-- A range, in the addresses that the unit has; there is none where code has been left out. -/
def interval? (u : CompileUnit) (start stop : Nat) : Option Interval :=
  let start := start % (u.highestAddress + 1)
  if start = u.removed then none
  else some ⟨UInt64.ofNat start, UInt64.ofNat (stop % (u.highestAddress + 1))⟩

/-- The ranges of a list. -/
def rangesFrom (u : CompileUnit) (item : Scan (Option RangeItem)) : Nat → Nat → Scan (List Interval)
  | 0, _ => return []
  | steps + 1, base => do
    if (← get).isEmpty then return []
    match ← item with
    | none => return []
    | some (.base address) => rangesFrom u item steps address
    | some (.offsets low high) =>
      let own := if base = u.removed then none else u.interval? (base + low) (base + high)
      return own.toList ++ (← rangesFrom u item steps base)
    | some (.range start stop) =>
      return (u.interval? start stop).toList ++ (← rangesFrom u item steps base)

/-- The list of ranges at a place. -/
def rangesAt (u : CompileUnit) (place : Nat) : Reading (List Interval) := do
  let (list, item) :=
    if u.encoding.version ≤ 4 then (u.sections.pairedRanges, u.pairedItem)
    else (u.sections.codedRanges, u.codedItem)
  if place ≤ list.length then
    (u.rangesFrom item list.length (← u.base).toNat).run' (list.drop place)
  else throw .damaged

/-- The place of one of the unit's lists of ranges. -/
def rangesPlace (u : CompileUnit) (number : Nat) : Reading Nat := do
  let base := u.baseOf .rangesBase
  return base + (← ofOption (u.wordOf? u.sections.codedRanges base u.encoding.placeSize number))

/-- What an entry says about where its code is. -/
structure Extent where
  lowest : Option UInt64
  highest : Option UInt64
  size : Option UInt64
  list : Option Nat

def extentStep (u : CompileUnit) (e : Extent) : Property × Value → Reading Extent
  | (.lowest, .address a) => return { e with lowest := some a }
  | (.lowest, .addressNumber n) => return { e with lowest := some (← u.addressOf n) }
  | (.highest, .address a) => return { e with highest := some a }
  | (.highest, .addressNumber n) => return { e with highest := some (← u.addressOf n) }
  | (.highest, .number n) => return { e with size := some (UInt64.ofNat n) }
  | (.ranges, .sectionPlace n) => return { e with list := some n }
  | (.ranges, .rangesNumber n) => return { e with list := some (← u.rangesPlace n) }
  | (.ranges, _) => return { e with list := none }
  | _ => return e

/-- The code that an entry is about: a list of ranges counts before a range of its own, and an end
before a size.  Empty ranges do not count. -/
def ranges (u : CompileUnit) (attributes : List (Property × Value)) : Reading (List Interval) := do
  let e ← attributes.foldlM u.extentStep ⟨none, none, none, none⟩
  let all ← match e.list, e.lowest, e.highest, e.size with
    | some place, _, _, _ => u.rangesAt place
    | none, some start, some stop, _ => pure [⟨start, stop⟩]
    | none, some start, none, some size => pure [⟨start, start + size⟩]
    | _, _, _, _ => pure []
  return all.filter (!·.isEmpty)

end CompileUnit

end ThreadTrace.Dwarf
