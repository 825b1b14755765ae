import ThreadTrace.Dwarf.Function
import ThreadTrace.Mangled.Name
import ThreadTrace.Text.Utf8

/-!
# ThreadTrace.Dwarf.Index — the functions at an address, by debug information

The units whose code an address may lie in are asked one after another for a function.  Damage that
is met on the way leaves the question without an answer.
-/

namespace ThreadTrace.Dwarf

/-- A unit, for one of the ranges of its code. -/
structure IndexedUnit where
  interval : Interval
  unit : CompileUnit
  functions : Reading (Array Function)

structure Index where
  /-- Units in ascending order of the ends of their code. -/
  indexed : List IndexedUnit
  /-- The units in the order of the file. -/
  units : List CompileUnit

namespace Index

/-- A unit for each of the ranges of its code. -/
def split (u : CompileUnit) : Reading (List IndexedUnit) := do
  let functions := u.functions
  return (← u.ranges u.about).map (⟨·, u, functions⟩)

/-- The functions of a file.  Units that cannot be understood are left out. -/
def ofSections (s : Sections) : Reading Index := do
  let units := (← Header.ofSections s).filterMap (CompileUnit.ofHeader s · |>.toOption)
  let indexed ← units.mapM split
  return ⟨indexed.flatten.mergeSort fun a b => decide (a.interval.stop ≤ b.interval.stop), units⟩

/-- The number of the language whose names are mangled in the ways that are known here. -/
def mangledLanguage : Nat := 0x1C

/-- A name as it is shown; the language of a unit may be unknown. -/
def shown (language : Option Nat) (name : List UInt8) : String :=
  let text := Text.lossy name
  if language.getD mangledLanguage = mangledLanguage then (Mangled.demangle? text).getD text
  else text

/-- The functions at an address, by the first of some units that has one there. -/
def framesAmong (x : Index) (address : UInt64) : List IndexedUnit → List (Option String)
  | [] => []
  | i :: rest =>
    match i.functions with
    | .error _ => []
    | .ok functions =>
      match (search? functions (·.interval.compareTo address)).bind (functions[·]?) with
      | none => x.framesAmong address rest
      | some f =>
        match i.unit.namesAt x.units f address with
        | .error _ => []
        | .ok names => names.map (·.map (shown i.unit.language?))

/-- The functions that were called to get to an address, from the innermost inlined call on; each
has a name or not. -/
def frames (x : Index) (address : UInt64) : List (Option String) :=
  x.framesAmong address (x.indexed.filter (·.interval.contains address))

end Index

end ThreadTrace.Dwarf
