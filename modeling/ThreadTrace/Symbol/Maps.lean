import ThreadTrace.IoFailure
import ThreadTrace.Stream.Chunk
import ThreadTrace.Text.Blank

/-!
# ThreadTrace.Symbol.Maps — where a program was loaded

A listing of a process's memory has a line for each mapping: its range, permissions, offset in the
file, device, inode and path.  A program was loaded where its file is mapped from offset zero.
-/

namespace ThreadTrace

/-! ### Hexadecimal numbers -/

inductive NumberError where
  | empty
  | invalidDigit
  | tooLarge
  deriving DecidableEq

def NumberError.message : NumberError → String
  | empty => "cannot parse integer from empty string"
  | invalidDigit => "invalid digit found in string"
  | tooLarge => "number too large to fit in target type"

def hexDigit? (c : Char) : Option Nat :=
  if '0' ≤ c ∧ c ≤ '9' then some (c.toNat - '0'.toNat)
  else if 'a' ≤ c ∧ c ≤ 'f' then some (c.toNat - 'a'.toNat + 10)
  else if 'A' ≤ c ∧ c ≤ 'F' then some (c.toNat - 'A'.toNat + 10)
  else none

/-- Digits behind those that gave `value`; the first problem from the left counts. -/
def hexValueFrom (value : Nat) : List Char → Except NumberError UInt64
  | [] => .ok (UInt64.ofNat value)
  | c :: cs =>
    match hexDigit? c with
    | none => .error .invalidDigit
    | some d =>
      if UInt64.size ≤ value * 16 + d then .error .tooLarge else hexValueFrom (value * 16 + d) cs

/-- A number of 64 bits in hexadecimal digits; a plus sign may stand in front of them. -/
def parseHex : List Char → Except NumberError UInt64
  | [] => .error .empty
  | ['+'] => .error .invalidDigit
  | '+' :: cs => hexValueFrom 0 cs
  | cs => hexValueFrom 0 cs

/-! ### Lines -/

structure Mapping where
  start : UInt64
  stop : UInt64
  /-- Where in the file the mapping begins. -/
  offset : UInt64
  path : Option String
  deriving DecidableEq

inductive MappingError where
  | missingRange
  | malformedRange (field : String)
  | rangeStart (cause : NumberError)
  | rangeEnd (cause : NumberError)
  | missingPermissions
  | missingOffset
  | offset (cause : NumberError)
  deriving DecidableEq

def MappingError.message : MappingError → String
  | missingRange => "Missing address range"
  | malformedRange field => s!"Malformed address range {Text.quoted field}"
  | rangeStart cause => s!"Failed to parse range start: {cause.message}"
  | rangeEnd cause => s!"Failed to parse range end: {cause.message}"
  | missingPermissions => "Missing permissions"
  | missingOffset => "Missing offset"
  | offset cause => s!"Failed to parse offset: {cause.message}"

/-- What stands before and after the first dash. -/
def splitDash (cs : List Char) : Option (List Char × List Char) :=
  match cs.dropWhile (· ≠ '-') with
  | [] => none
  | _ :: after => some (cs.takeWhile (· ≠ '-'), after)

def parseRange (field : List Char) : Except MappingError (UInt64 × UInt64) := do
  match splitDash field with
  | none => throw (.malformedRange (String.ofList field))
  | some (before, after) =>
    let start ← (parseHex before).mapError .rangeStart
    let stop ← (parseHex after).mapError .rangeEnd
    return (start, stop)

/-- The path is what stands behind the inode.  White space in it counts as one blank. -/
def pathOf (fields : List (List Char)) : Option String :=
  match fields with
  | [] => none
  | first :: rest => some (String.ofList (first ++ rest.flatMap (' ' :: ·)))

def parseMapping (line : String) : Except MappingError Mapping :=
  match Text.fields line.toList with
  | [] => .error .missingRange
  | range :: rest => do
    let (start, stop) ← parseRange range
    match rest with
    | [] => throw .missingPermissions
    | [_] => throw .missingOffset
    | _ :: offset :: rest =>
      let offset ← (parseHex offset).mapError .offset
      return ⟨start, stop, offset, pathOf (rest.drop 2)⟩

def parseMappings (listing : String) : Except MappingError (List Mapping) :=
  (Text.lines listing.toList).mapM (parseMapping ∘ String.ofList)

/-! ### The load base -/

/-- Whether a mapping shows the beginning of a file. -/
def Mapping.begins (m : Mapping) (path : String) : Bool :=
  m.offset == 0 && m.path == some path

/-- The least address where the beginning of a file is mapped. -/
def loadBase? (mappings : List Mapping) (path : String) : Option UInt64 :=
  ((mappings.filter (·.begins path)).map (·.start)).min?

inductive LoadBaseError where
  | unreadable (process : UInt32) (failure : IoFailure)
  | malformed (cause : MappingError)
  | notMapped (path : String) (process : UInt32)

def LoadBaseError.message : LoadBaseError → String
  | unreadable process failure =>
    s!"Failed to read /proc/{process.toNat}/maps: {failure.message}"
  | malformed cause => cause.message
  | notMapped path process =>
    s!"Could not find memory range for {path} in {processLabel process}"

/-- Where a process has the beginning of a file, from the listing of its memory. -/
def findLoadBase (process : UInt32) (listing : Except IoFailure String) (path : String) :
    Except LoadBaseError UInt64 := do
  let listing ← listing.mapError (.unreadable process)
  let mappings ← (parseMappings listing).mapError .malformed
  match loadBase? mappings path with
  | some base => return base
  | none => throw (.notMapped path process)

end ThreadTrace
