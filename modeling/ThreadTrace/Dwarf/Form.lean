import ThreadTrace.Dwarf.Scan

/-!
# ThreadTrace.Dwarf.Form — how values are written

The form of an attribute is a number that says how its value is written, and so where the next one
begins.  Every form is known here, also those whose values are of no use for names and code: a unit
with such values can be read on.
-/

namespace ThreadTrace.Dwarf

/-- How many bytes a number takes. -/
inductive Width where
  | bytes (n : Nat)
  /-- As many as a place in a section, which depends on the unit. -/
  | place
  /-- As many as the number needs. -/
  | varying
  deriving DecidableEq

inductive Form where
  | address
  /-- The number of an address in the list that the unit has of them. -/
  | addressNumber (width : Width)
  | number (width : Width)
  | signed
  /-- The value is in the abbreviation. -/
  | constant
  | text
  /-- A place among the texts that all units share. -/
  | textPlace
  /-- A place among the texts of tables of lines. -/
  | lineTextPlace
  /-- The number of a text in the list that the unit has of their places. -/
  | textNumber (width : Width)
  /-- A place in the unit. -/
  | entryPlace (width : Width)
  /-- A place among all units. -/
  | outerPlace
  | sectionPlace
  /-- The number of a list of ranges. -/
  | rangesNumber (width : Width)
  /-- Bytes behind their number. -/
  | block (width : Width)
  /-- What neither names nor code are told with. -/
  | skipped (width : Width)
  /-- The form is written in front of the value. -/
  | indirect
  deriving DecidableEq

namespace Form

def ofCode? : Nat → Option Form
  | 0x01 => some address
  | 0x03 => some (block (.bytes 2))
  | 0x04 => some (block (.bytes 4))
  | 0x05 => some (number (.bytes 2))
  | 0x06 => some (number (.bytes 4))
  | 0x07 => some (number (.bytes 8))
  | 0x08 => some text
  | 0x09 => some (block .varying)
  | 0x0A => some (block (.bytes 1))
  | 0x0B => some (number (.bytes 1))
  | 0x0C => some (skipped (.bytes 1))
  | 0x0D => some signed
  | 0x0E => some textPlace
  | 0x0F => some (number .varying)
  | 0x10 => some outerPlace
  | 0x11 => some (entryPlace (.bytes 1))
  | 0x12 => some (entryPlace (.bytes 2))
  | 0x13 => some (entryPlace (.bytes 4))
  | 0x14 => some (entryPlace (.bytes 8))
  | 0x15 => some (entryPlace .varying)
  | 0x16 => some indirect
  | 0x17 => some sectionPlace
  | 0x18 => some (block .varying)
  | 0x19 => some (skipped (.bytes 0))
  | 0x1A => some (textNumber .varying)
  | 0x1B => some (addressNumber .varying)
  | 0x1C => some (skipped (.bytes 4))
  | 0x1D => some (skipped .place)
  | 0x1E => some (skipped (.bytes 16))
  | 0x1F => some lineTextPlace
  | 0x20 => some (skipped (.bytes 8))
  | 0x21 => some constant
  | 0x22 => some (skipped .varying)
  | 0x23 => some (rangesNumber .varying)
  | 0x24 => some (skipped (.bytes 8))
  | 0x25 => some (textNumber (.bytes 1))
  | 0x26 => some (textNumber (.bytes 2))
  | 0x27 => some (textNumber (.bytes 3))
  | 0x28 => some (textNumber (.bytes 4))
  | 0x29 => some (addressNumber (.bytes 1))
  | 0x2A => some (addressNumber (.bytes 2))
  | 0x2B => some (addressNumber (.bytes 3))
  | 0x2C => some (addressNumber (.bytes 4))
  | 0x1F01 => some (skipped .varying)
  | 0x1F02 => some (skipped .varying)
  | 0x1F20 => some (skipped .place)
  | 0x1F21 => some (skipped .place)
  | _ => none

/-- The form in front of a value, which may itself say that another one follows. -/
def scanFrom : Nat → Scan Form
  | 0 => Scan.fail
  | steps + 1 => do
    match ofCode? (← Scan.number16) with
    | some indirect => scanFrom steps
    | some form => return form
    | none => Scan.fail

def scan : Scan Form := do scanFrom (← get).length

end Form

end ThreadTrace.Dwarf
