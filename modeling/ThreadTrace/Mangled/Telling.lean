import ThreadTrace.Mangled.Scan
import ThreadTrace.Mangled.Sheet
import ThreadTrace.Text.Quoted
import ThreadTrace.Text.Utf8

/-!
# ThreadTrace.Mangled.Telling — reading a name and writing down what it says

Reading and writing go together, since only the written text tells how far references in a name are
to be followed.  What cannot be read leaves a mark, and what should come behind it a question mark.
A form is left at a fault inside of it, and those around it go on; only a full sheet ends
everything.
-/

namespace ThreadTrace.Mangled

/-- The state of somebody who reads a name and writes down what it says. -/
structure Retelling where
  symbol : List Char
  /-- What is still unread; nothing is, once a fault was found. -/
  unread : Option (List Char)
  /-- Where the text goes, unless a form is only read over. -/
  sheet : Option Sheet
  /-- The number of lifetimes that have been introduced around this place. -/
  lifetimes : Nat

/-- Why a form is left before its end. -/
inductive Halt where
  | unreadable
  | noRoom
  deriving DecidableEq

abbrev Telling := ExceptT Halt (StateM Retelling)

namespace Telling

def writeAll (pieces : List String) : Telling Unit := do
  let r ← get
  match r.sheet with
  | none => return
  | some sheet =>
    let (sheet, whole) := sheet.writeAll pieces
    set { r with sheet := some sheet }
    if whole then return else throw .noRoom

def write (s : String) : Telling Unit := writeAll [s]

/-- Whether nothing is written down at present. -/
def isSilent : Telling Bool := return (← get).sheet.isNone

/-- Nothing can be read behind a fault. -/
def fail {α : Type} (fault : Fault) : Telling α := do
  write fault.mark
  modify fun r => { r with unread := none }
  throw .unreadable

def scan {α : Type} (reader : Scan α) : Telling α := do
  match (← get).unread with
  | none =>
    write "?"
    throw .unreadable
  | some s =>
    match reader s with
    | .ok (a, rest) =>
      modify fun r => { r with unread := some rest }
      return a
    | .error fault => fail fault

/-- Whether a given character is next; then it is read.  None is, behind a fault. -/
def eat (c : Char) : Telling Bool := do
  match (← get).unread with
  | none => return false
  | some s =>
    if s.head? = some c then
      modify fun r => { r with unread := some s.tail }
      return true
    else return false

/-- Go on behind a form that could not be read to its end, as if it had said `a`. -/
def orElse {α : Type} (a : α) (form : Telling α) : Telling α :=
  tryCatch form fun halt =>
    match halt with
    | .unreadable => return a
    | .noRoom => throw .noRoom

/-- A form that may be left before its end. -/
def form (body : Telling Unit) : Telling Unit := orElse () body

/-- Read a form over. -/
def silently (body : Telling Unit) : Telling Unit := do
  let sheet := (← get).sheet
  modify fun r => { r with sheet := none }
  body
  modify fun r => { r with sheet := sheet }

/-- The number of characters that are unread. -/
def unreadLength : Telling Nat := return ((← get).unread.getD []).length

/-- Whether a list of forms ends here: behind its `E`, or behind a fault. -/
def listEnds : Telling Bool := do
  if (← get).unread.isNone then return true else eat 'E'

/-- The items of a list, `count` of which have been read before; every item has a character at
least. -/
def listFrom (separator : String) (item : Telling Unit) : Nat → Nat → Telling Nat
  | 0, count => return count
  | steps + 1, count => do
    if ← listEnds then return count
    else
      if 0 < count then write separator
      item
      listFrom separator item steps (count + 1)

/-- Items up to an `E`: their number. -/
def listOf (separator : String) (item : Telling Unit) : Telling Nat := do
  listFrom separator item ((← unreadLength) + 1) 0

/-- A list in brackets; a list of one item can be marked by a comma, as tuples are. -/
def bracketed (opening closing : String) (item : Telling Unit) (marksOne : Bool) :
    Telling Unit := do
  write opening
  let count ← listOf ", " item
  if marksOne ∧ count = 1 then write ","
  write closing

/-- The name of the lifetime that was introduced after `depth` others. -/
def lifetimeName (depth : Nat) : List String :=
  if depth < 26 then [String.singleton (Char.ofNat ('a'.toNat + depth))] else ["_", toString depth]

/-- Lifetimes are counted from the one that was introduced last, which is 1. -/
def lifetime (index : Nat) : Telling Unit := form do
  unless ← isSilent do
    write "'"
    if index = 0 then write "_"
    else
      let known := (← get).lifetimes
      if index ≤ known then writeAll (lifetimeName (known - index)) else fail .malformed

/-- The names of so many new lifetimes, for as long as there is room. -/
def introduce (sheet : Sheet) (known : Nat) : Nat → Bool → Sheet × Bool
  | 0, _ => (sheet, true)
  | count + 1, isFirst =>
    let comma := if isFirst then [] else [", "]
    match sheet.writeAll (comma ++ "'" :: lifetimeName known) with
    | (sheet, true) => introduce sheet (known + 1) count false
    | (sheet, false) => (sheet, false)

/-- A form that may begin with new lifetimes; they are known inside of it. -/
def binder (body : Telling Unit) : Telling Unit := form do
  let count ← scan (Scan.tagged62 'G')
  let r ← get
  match r.sheet with
  | none => body
  | some sheet =>
    if 0 < count then
      let start := sheet.writeAll ["for<"]
      let (sheet, whole) :=
        if start.2 then introduce start.1 r.lifetimes count true else start
      set { r with sheet := some sheet, lifetimes := r.lifetimes + count }
      if whole then write "> " else throw .noRoom
    body
    modify fun r => { r with lifetimes := r.lifetimes - count }

def identifier (i : Identifier) : Telling Unit := writeAll i.shown

/-- The types that are written as one letter. -/
def basicTypes : List (Char × String) :=
  [('b', "bool"), ('c', "char"), ('e', "str"), ('u', "()"), ('a', "i8"), ('s', "i16"), ('l', "i32"),
    ('x', "i64"), ('n', "i128"), ('i', "isize"), ('h', "u8"), ('t', "u16"), ('m', "u32"),
    ('y', "u64"), ('o', "u128"), ('j', "usize"), ('f', "f32"), ('d', "f64"), ('z', "!"), ('p', "_"),
    ('v', "...")]

/-- The number that hexadecimal digits stand for, if it has 64 bits. -/
def number? (digits : List Char) : Option Nat :=
  let digits := digits.dropWhile (· == '0')
  if digits.length ≤ 16 then
    some (digits.foldl (fun n c => 16 * n + (Scan.digit62? c).getD 0) 0)
  else none

/-- The bytes that hexadecimal digits stand for. -/
def bytes? : List Char → Option (List UInt8)
  | [] => some []
  | [_] => none
  | high :: low :: rest => do
    let high ← Scan.digit62? high
    let low ← Scan.digit62? low
    return UInt8.ofNat (16 * high + low) :: (← bytes? rest)

/-- An integer in decimal; one that is too large stays as it was written. -/
def unsigned : Telling Unit := form do
  let digits ← scan Scan.hexDigits
  match number? digits with
  | some n => write (toString n)
  | none => writeAll ["0x", String.ofList digits]

def quotedPieces (quote : Char) (text : List Char) : List String :=
  (quote.toString :: (text.flatMap (Text.escaped quote)).map Char.toString) ++ [quote.toString]

def stringLiteral : Telling Unit := form do
  match (bytes? (← scan Scan.hexDigits)).bind Text.decode? with
  | some text => writeAll (quotedPieces '"' text.toList)
  | none => fail .malformed

end Telling

end ThreadTrace.Mangled
