import ThreadTrace.Dwarf.CompileUnit

/-!
# ThreadTrace.Dwarf.Function — functions, and what was inlined into them

Functions stand anywhere in a unit.  One that has been inlined at a call leaves an entry there, with
the code that came from it, inside the entry of the function or of another such call.  An entry may
refer to another one for its name, in its own unit or in another of the `units`.
-/

namespace ThreadTrace.Dwarf

/-- The entry of a function, for one of the ranges of its code. -/
structure Function where
  interval : Interval
  item : Item
  attributes : List (Property × Value)
  /-- The items of the unit behind the entry. -/
  following : List Item

/-- An inlined call, for one of the ranges of its code. -/
structure InlinedCall where
  /-- How many inlined calls are around this one. -/
  level : Nat
  interval : Interval
  name : Option (List UInt8)
  deriving DecidableEq

namespace InlinedCall

/-- Calls with fewer others around them come first, and then those whose code does. -/
def le (a b : InlinedCall) : Bool :=
  decide (a.level < b.level ∨ a.level = b.level ∧ a.interval.start ≤ b.interval.start)

/-- Where a call lies, seen from an address inside of so many calls. -/
def compareTo (c : InlinedCall) (level : Nat) (address : UInt64) : Ordering :=
  (compare c.level level).then (c.interval.compareTo address)

end InlinedCall

namespace CompileUnit

/-- The functions among items of a unit; those without code do not count. -/
def functionsAmong (u : CompileUnit) : List Item → Reading (List Function)
  | [] => return []
  | i :: rest => do
    let own ← match i.entry with
      | some e =>
        if e.tag = Entry.function then
          pure ((← u.ranges e.attributes).map fun interval => ⟨interval, i, e.attributes, rest⟩)
        else pure []
      | none => pure []
    return own ++ (← functionsAmong u rest)

/-- The functions of a unit in ascending order of their code. -/
def functions (u : CompileUnit) : Reading (Array Function) := do
  let all ← functionsAmong u (← Item.ofBytes u.encoding u.content)
  return (all.mergeSort fun f g => decide (f.interval.start ≤ g.interval.start)).toArray

/-- Where the entry is that a value refers to, if it refers to one: in a unit, and the place in it.
-/
def target (u : CompileUnit) (units : List CompileUnit) :
    Value → Reading (Option (CompileUnit × Nat))
  | .entryAt place => return some (u, place)
  | .outerEntryAt place => do
    let v ← ofOption (units.find? fun v => v.start ≤ place && place < v.start + v.size)
    return some (v, place - v.start)
  | _ => return none

/-- The name that an entry has which another one refers to: the one that the linker uses, or else
its own name, or else that of the entry that it refers to itself; `steps` references are followed.
-/
def referredName (units : List CompileUnit) :
    Nat → CompileUnit → Value → Reading (Option (List UInt8))
  | 0, _, _ => return none
  | steps + 1, u, value => do
    match ← u.target units value with
    | none => return none
    | some (u, place) =>
      let e ← u.entryAt place
      let texts (p : Property) := (e.attributes.filter (·.1 == p)).filterMap fun a => u.text? a.2
      let origins := e.attributes.filter (·.1 == .origin)
      match (texts .linkageName).head?, (texts .name).getLast?, origins.getLast? with
      | some name, _, _ => return some name
      | none, some name, _ => return some name
      | none, none, some (_, value) => referredName units steps u value
      | none, none, none => return none

/-- How many references are followed to find a name. -/
def maxReferences : Nat := 16

/-- The name known from the attributes before another one, and what that says: the linker's name
counts most, and any other only if none is known. -/
def nameStep (u : CompileUnit) (units : List CompileUnit) (known : Option (List UInt8)) :
    Property × Value → Reading (Option (List UInt8))
  | (.linkageName, value) => return u.text? value <|> known
  | (.name, value) => return known <|> u.text? value
  | (.origin, value) =>
    if known.isSome then return known else referredName units maxReferences u value
  | _ => return known

def nameOf (u : CompileUnit) (units : List CompileUnit) (attributes : List (Property × Value)) :
    Reading (Option (List UInt8)) :=
  attributes.foldlM (u.nameStep units) none

/-- The inlined calls among items inside a function, with the number of calls around each: `around`
has their depths.  What is inside a function of its own, at depth `apart`, does not count. -/
def callsAmong (around : List Int) (apart : Option Int) : List Item → List (Nat × Entry)
  | [] => []
  | i :: rest =>
    if (apart.map (decide <| · < i.depth)).getD false then callsAmong around apart rest
    else
      let around := around.dropWhile (decide <| i.depth ≤ ·)
      match i.entry with
      | some e =>
        if e.tag = Entry.function then callsAmong around (some i.depth) rest
        else if e.tag = Entry.inlinedCall then
          (around.length, e) :: callsAmong (i.depth :: around) none rest
        else callsAmong around none rest
      | none => callsAmong around none rest

/-- The inlined calls of a function. -/
def inlinedCalls (u : CompileUnit) (units : List CompileUnit) (f : Function) :
    Reading (Array InlinedCall) := do
  let calls := callsAmong [] none (← f.item.inside f.following)
  let all ← calls.mapM fun (level, e) => do
    let name ← u.nameOf units e.attributes
    return (← u.ranges e.attributes).map fun interval => (⟨level, interval, name⟩ : InlinedCall)
  return (all.flatten.mergeSort InlinedCall.le).toArray

/-- The calls that an address lies in, from the outermost on, when `level` calls are around it
already. -/
def callsAround (address : UInt64) (level : Nat) (calls : Array InlinedCall) : List InlinedCall :=
  match h : search? calls (·.compareTo level address) with
  | none => []
  | some place =>
    have := lt_size_of_search? h
    calls[place] :: callsAround address (level + 1) (calls.extract (place + 1) calls.size)
  termination_by calls.size
  decreasing_by
    rw [Array.size_extract]
    omega

/-- The names of the functions that were called to get to an address of a function: those of the
inlined calls in which it lies, from the innermost on, and that of the function itself. -/
def namesAt (u : CompileUnit) (units : List CompileUnit) (f : Function) (address : UInt64) :
    Reading (List (Option (List UInt8))) := do
  let own ← u.nameOf units f.attributes
  let calls ← u.inlinedCalls units f
  return ((callsAround address 0 calls).map (·.name)).reverse ++ [own]

end CompileUnit

end ThreadTrace.Dwarf
