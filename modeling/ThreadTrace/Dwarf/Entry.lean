import ThreadTrace.Dwarf.Form

/-!
# ThreadTrace.Dwarf.Entry — what is said about one thing

An entry is written as a number, which stands for its tag and the names and forms of its attributes,
and the values of these.  Entries that belong to another follow it, up to the number 0.
-/

namespace ThreadTrace.Dwarf

/-- What an entry may say that matters for the names of functions. -/
inductive Property where
  | linkageName
  | name
  | lowest
  | highest
  | ranges
  | language
  /-- The entry that this one is an instance of. -/
  | origin
  /-- Where the unit's list of places of texts begins. -/
  | textsBase
  /-- Where its list of addresses begins. -/
  | addressesBase
  /-- Where its lists of ranges are counted from. -/
  | rangesBase
  | other
  deriving DecidableEq

def Property.ofCode : Nat → Property
  | 0x6E => linkageName
  | 0x2007 => linkageName
  | 0x03 => name
  | 0x11 => lowest
  | 0x12 => highest
  | 0x55 => ranges
  | 0x13 => language
  | 0x31 => origin
  | 0x47 => origin
  | 0x72 => textsBase
  | 0x73 => addressesBase
  | 0x74 => rangesBase
  | _ => other

/-- The value of an attribute. -/
inductive Value where
  | address (a : UInt64)
  /-- One of the addresses that the unit has a list of. -/
  | addressNumber (n : Nat)
  | number (n : Nat)
  | text (bytes : List UInt8)
  /-- A place among the texts that all units share. -/
  | textAt (place : Nat)
  /-- A place among the texts of tables of lines. -/
  | lineTextAt (place : Nat)
  /-- One of the texts that the unit has a list of places of. -/
  | textNumber (n : Nat)
  /-- A place in the unit. -/
  | entryAt (place : Nat)
  /-- A place among all units. -/
  | outerEntryAt (place : Nat)
  /-- A place in another section. -/
  | sectionPlace (place : Nat)
  /-- One of the unit's lists of ranges. -/
  | rangesNumber (n : Nat)
  /-- What names and code are not told with. -/
  | skipped
  deriving DecidableEq

/-- A number as a value; one below zero tells nothing. -/
def Value.ofInt (n : Int) : Value := if 0 ≤ n then .number n.toNat else .skipped

/-- How an attribute is written in the entries of a kind. -/
structure AttributeForm where
  property : Property
  /-- The number of its form. -/
  form : Nat
  /-- The value, if all the entries have the same. -/
  constant : Option Int
  deriving DecidableEq

/-- How entries of a kind are written. -/
structure Abbreviation where
  code : Nat
  tag : Nat
  hasChildren : Bool
  attributes : List AttributeForm
  deriving DecidableEq

namespace Abbreviation

/-- Attributes up to a pair of zeros; each takes two bytes at least. -/
def attributesFrom : Nat → Scan (List AttributeForm)
  | 0 => Scan.fail
  | steps + 1 => do
    let name ← Scan.number16
    let form ← Scan.number16
    if name = 0 ∧ form = 0 then return []
    else if name = 0 ∨ form = 0 then Scan.fail
    else
      let constant ←
        if Form.ofCode? form = some .constant then some <$> Scan.signed64 else pure none
      return ⟨.ofCode name, form, constant⟩ :: (← attributesFrom steps)

/-- An abbreviation, or the end of the table of them. -/
def scan : Scan (Option Abbreviation) := do
  let code ← Scan.number64
  if code = 0 then return none
  let tag ← Scan.number16
  let hasChildren ← Scan.byte
  if tag = 0 ∨ 1 < hasChildren then Scan.fail
  let attributes ← attributesFrom ((← get).length + 1)
  return some ⟨code, tag, hasChildren == 1, attributes⟩

/-- The abbreviations of a table, in which no number may have two meanings. -/
def tableFrom : Nat → List Abbreviation → Scan (List Abbreviation)
  | 0, _ => Scan.fail
  | steps + 1, known => do
    match ← scan with
    | none => return known
    | some a => if known.any (·.code == a.code) then Scan.fail else tableFrom steps (a :: known)

def table : Scan (List Abbreviation) := do tableFrom ((← get).length + 1) []

end Abbreviation

/-- How the entries of a unit are written. -/
structure Encoding where
  order : ByteOrder
  version : Nat
  addressSize : Nat
  /-- How many bytes a place in a section takes. -/
  placeSize : Nat
  abbreviations : List Abbreviation

namespace Encoding

def number (e : Encoding) : Width → Scan Nat
  | .bytes n => Scan.word e.order n
  | .place => Scan.word e.order e.placeSize
  | .varying => Scan.number64

/-- A value in a form.  Places of lists of ranges may be given as plain numbers. -/
def valueIn (e : Encoding) (a : AttributeForm) : Form → Scan Value
  | .address => return .address (UInt64.ofNat (← Scan.word e.order e.addressSize))
  | .addressNumber width => return .addressNumber (← e.number width)
  | .number width => do
    let n ← e.number width
    if a.property = .ranges ∧ width = .bytes e.placeSize then return .sectionPlace n
    else return .number n
  | .signed => return .ofInt (← Scan.signed64)
  | .constant => return .ofInt (← ofOption a.constant)
  | .text => return .text (← Scan.text)
  | .textPlace => return .textAt (← e.number .place)
  | .lineTextPlace => return .lineTextAt (← e.number .place)
  | .textNumber width => return .textNumber (← e.number width)
  | .entryPlace width => return .entryAt (← e.number width)
  | .outerPlace =>
    let size := if e.version ≤ 2 then e.addressSize else e.placeSize
    return .outerEntryAt (← Scan.word e.order size)
  | .sectionPlace => return .sectionPlace (← e.number .place)
  | .rangesNumber width => return .rangesNumber (← e.number width)
  | .block width => do
    let _ ← Scan.take (← e.number width)
    return .skipped
  | .skipped width => do
    let _ ← e.number width
    return .skipped
  | .indirect => Scan.fail

def value (e : Encoding) (a : AttributeForm) : Scan Value := do
  match Form.ofCode? a.form with
  | some .indirect => e.valueIn a (← Form.scan)
  | some form => e.valueIn a form
  | none => Scan.fail

end Encoding

structure Entry where
  tag : Nat
  hasChildren : Bool
  attributes : List (Property × Value)
  deriving DecidableEq

namespace Entry

/-- The tag of a function. -/
def function : Nat := 0x2E

/-- The tag of a call that has been replaced by the function that it calls. -/
def inlinedCall : Nat := 0x1D

/-- An entry, or the end of those that belong to another. -/
def scan (e : Encoding) : Scan (Option Entry) := do
  let code ← Scan.number64
  if code = 0 then return none
  let a ← ofOption (e.abbreviations.find? (·.code == code))
  let attributes ← a.attributes.mapM fun written => do
    return (written.property, ← e.value written)
  return some ⟨a.tag, a.hasChildren, attributes⟩

end Entry

/-- An entry in its place, or the end of those that belong to another: how deep it is inside of
others, and how deep the next one is. -/
structure Item where
  depth : Int
  next : Int
  entry : Option Entry
  deriving DecidableEq

namespace Item

/-- The items of a unit up to its end, when the next one is so deep inside of others. -/
def scanFrom (e : Encoding) : Nat → Int → Scan (List Item)
  | 0, _ => Scan.fail
  | steps + 1, depth => do
    if (← get).isEmpty then return []
    let entry ← Entry.scan e
    let next := match entry with
      | none => depth - 1
      | some entry => if entry.hasChildren then depth + 1 else depth
    return ⟨depth, next, entry⟩ :: (← scanFrom e steps next)

/-- All items of a unit; each takes a byte at least. -/
def ofBytes (e : Encoding) (content : List UInt8) : Reading (List Item) :=
  (scanFrom e (content.length + 1) 0).run' content

/-- The items up to the first one that leads back to a depth; there has to be one. -/
def upTo (depth : Int) : List Item → Reading (List Item)
  | [] => .error .damaged
  | i :: rest => if i.next ≤ depth then .ok [i] else do return i :: (← upTo depth rest)

/-- The items that belong to an entry, from those that follow it. -/
def inside (i : Item) (following : List Item) : Reading (List Item) :=
  if i.next ≤ i.depth then .ok [] else upTo i.depth following

end Item

end ThreadTrace.Dwarf
