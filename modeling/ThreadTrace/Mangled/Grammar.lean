import ThreadTrace.Mangled.Telling

/-!
# ThreadTrace.Mangled.Grammar — names that describe paths, types and constants

The forms of names in prefix notation: a letter says which form it is, and its parts follow.  Forms
nest, and a form can be replaced by a reference back to a place where one was written before.

A `Level` has the readers of the forms at one depth; `Level.above` makes them from those one step
deeper, and `Level.ofDepth` has as many steps as a name may have.
-/

namespace ThreadTrace.Mangled

/-- The forms that can stand at one place.  Those of constants depend on whether they stand in an
expression, and so do those of paths with arguments. -/
structure Forms where
  path : Bool → Telling Unit
  type : Telling Unit
  const : Bool → Telling Unit
  pattern : Telling Unit
  /-- A path whose arguments are left open: whether it has any. -/
  openPath : Telling Bool

/-- The forms at one depth, as they are written there and as they are reached by a reference. -/
structure Level where
  written : Forms
  referred : Forms

namespace Level

open Telling

/-- The forms inside a form. -/
def deeper (below : Option Level) : Telling Level :=
  scan (match below with
    | some l => pure l
    | none => throw .tooDeep)

/-- Read a form at a place before this one, and go on here.  What is only read over is not looked up
again. -/
def follow {α : Type} (below : Option Level) (a : α) (read : Forms → Telling α) : Telling α :=
  orElse a do
    let symbol := (← get).symbol
    let place ← scan (Scan.backReference symbol.length)
    let l ← deeper below
    if ← isSilent then return a
    else
      let unread := (← get).unread
      modify fun r => { r with unread := some (symbol.drop place) }
      let result ← read l.written
      modify fun r => { r with unread := unread }
      return result

/-- An argument of a path: a lifetime, a constant or a type. -/
def argument (const : Bool → Telling Unit) (type : Telling Unit) : Telling Unit := form do
  if ← eat 'L' then lifetime (← scan Scan.number62)
  else if ← eat 'K' then const false
  else type

/-- The name of something inside a path.  Things without a name have a kind and a number. -/
def inner (kind : Option Char) (number : Nat) (i : Identifier) : Telling Unit := do
  match kind with
  | some c =>
    write "::\x7b"
    write (if c = 'C' then "closure" else if c = 'S' then "shim" else c.toString)
    unless i.isEmpty do
      write ":"
      identifier i
    writeAll ["#", toString number, "\x7d"]
  | none =>
    unless i.isEmpty do
      write "::"
      identifier i

/-- The path of the block that something was defined in, which is not shown. -/
def origin (l : Level) : Telling Unit := do
  let _ ← scan Scan.disambiguator
  silently (l.written.path false)

/-- A type, and an interface if what is named belongs to one. -/
def qualified (l : Level) (hasInterface : Bool) : Telling Unit := do
  write "<"
  l.written.type
  if hasInterface then
    write " as "
    l.written.path false
  write ">"

def path (below : Option Level) (inValue : Bool) : Telling Unit := form do
  let l ← deeper below
  match ← scan Scan.next with
  | 'C' =>
    let _ ← scan Scan.disambiguator
    identifier (← scan Scan.identifier)
  | 'N' =>
    let kind ← scan Scan.kind
    l.written.path inValue
    if (← get).unread.isNone then write "::"
    let number ← scan Scan.disambiguator
    inner kind number (← scan Scan.identifier)
  | 'M' => do origin l; qualified l false
  | 'X' => do origin l; qualified l true
  | 'Y' => qualified l true
  | 'I' =>
    l.written.path inValue
    if inValue then write "::"
    bracketed "<" ">" (argument l.written.const l.written.type) false
  | 'B' => l.referred.path inValue
  | _ => fail .malformed

/-- The convention by which a function is called, if a name for it is written. -/
def convention : Telling (Option (List Char)) := do
  if ← eat 'K' then
    if ← eat 'C' then return some ['C']
    else
      let i ← scan Scan.identifier
      if i.ascii.isEmpty ∨ i.digits.isEmpty = false then fail .malformed
      else return some i.ascii
  else return none

/-- Names of conventions have hyphens, for which underscores are written. -/
def conventionName (ascii : List Char) : List String :=
  let hyphenated := ["-"].intercalate ((ascii.splitOn '_').map fun part => [String.ofList part])
  "extern \"" :: hyphenated ++ ["\" "]

/-- The type of a function; the empty tuple as a result is not shown. -/
def function (l : Level) : Telling Unit := form do
  let isUnsafe ← eat 'U'
  let convention ← convention
  if isUnsafe then write "unsafe "
  match convention with
  | some ascii => writeAll (conventionName ascii)
  | none => pure ()
  bracketed "fn(" ")" l.written.type false
  unless ← eat 'u' do
    write " -> "
    l.written.type

/-- The types that an interface is bound to, behind its arguments: whether a bracket is open. -/
def bindings (l : Level) : Nat → Bool → Telling Bool
  | 0, isOpen => return isOpen
  | steps + 1, isOpen => do
    if ← eat 'p' then
      write (if isOpen then ", " else "<")
      identifier (← scan Scan.identifier)
      write " = "
      l.written.type
      bindings l steps true
    else return isOpen

/-- An interface of an unknown type. -/
def interface (l : Level) : Telling Unit := form do
  let isOpen ← l.written.openPath
  if ← bindings l (← unreadLength) isOpen then write ">"

/-- An unknown type, of which interfaces and a lifetime are known. -/
def dynamic (l : Level) : Telling Unit := do
  write "dyn "
  binder do let _ ← listOf " + " (interface l)
  unless ← eat 'L' do fail .malformed
  let index ← scan Scan.number62
  if index ≠ 0 then
    write " + "
    lifetime index

/-- A reference; a lifetime that is not named is not shown. -/
def reference (l : Level) (isMutable : Bool) : Telling Unit := do
  write "&"
  if ← eat 'L' then
    let index ← scan Scan.number62
    if index ≠ 0 then
      lifetime index
      write " "
  if isMutable then write "mut "
  l.written.type

/-- Types that are written as one letter do not count as a step. -/
def type (below : Option Level) : Telling Unit := form do
  let tag ← scan Scan.next
  match basicTypes.lookup tag with
  | some text => write text
  | none =>
    let l ← deeper below
    match tag with
    | 'R' => reference l false
    | 'Q' => reference l true
    | 'P' => do write "*"; write "const "; l.written.type
    | 'O' => do write "*"; write "mut "; l.written.type
    | 'A' => do
      write "["
      l.written.type
      write "; "
      l.written.const true
      write "]"
    | 'S' => do write "["; l.written.type; write "]"
    | 'T' => bracketed "(" ")" l.written.type true
    | 'F' => binder (function l)
    | 'D' => dynamic l
    | 'W' => do l.written.type; write " is "; l.written.pattern
    | 'B' => l.referred.type
    | _ =>
      modify fun r => { r with unread := r.unread.map (tag :: ·) }
      l.written.path false

/-- A member of a value and its name. -/
def member (l : Level) : Telling Unit := form do
  let _ ← scan Scan.disambiguator
  identifier (← scan Scan.identifier)
  write ": "
  l.written.const true

/-- A value that is made from others by name. -/
def composite (l : Level) : Telling Unit := do
  l.written.path true
  match ← scan Scan.next with
  | 'U' => pure ()
  | 'T' => bracketed "(" ")" (l.written.const true) false
  | 'S' => bracketed " \x7b " " \x7d" (member l) false
  | _ => fail .malformed

/-- Expressions other than literals stand in braces where types could stand. -/
def braced (inValue : Bool) (body : Telling Unit) : Telling Unit := do
  unless inValue do write "\x7b"
  body
  unless inValue do write "\x7d"

def truth : Telling Unit := do
  match number? (← scan Scan.hexDigits) with
  | some 0 => write "false"
  | some 1 => write "true"
  | _ => fail .malformed

def character : Telling Unit := do
  match number? (← scan Scan.hexDigits) with
  | some n =>
    if n.isValidChar then writeAll (quotedPieces '\'' [Char.ofNat n]) else fail .malformed
  | none => fail .malformed

def const (below : Option Level) (inValue : Bool) : Telling Unit := form do
  let tag ← scan Scan.next
  let l ← deeper below
  match tag with
  | 'p' => write "_"
  | 'h' | 't' | 'm' | 'y' | 'o' | 'j' => unsigned
  | 'a' | 's' | 'l' | 'x' | 'n' | 'i' =>
    if ← eat 'n' then write "-"
    unsigned
  | 'b' => truth
  | 'c' => character
  | 'e' => braced inValue do write "*"; stringLiteral
  | 'R' =>
    if ← eat 'e' then stringLiteral
    else braced inValue do write "&"; l.written.const true
  | 'Q' => braced inValue do write "&"; write "mut "; l.written.const true
  | 'A' => braced inValue (bracketed "[" "]" (l.written.const true) false)
  | 'T' => braced inValue (bracketed "(" ")" (l.written.const true) true)
  | 'V' => braced inValue (composite l)
  | 'B' => l.referred.const inValue
  | _ => fail .malformed

/-- The alternatives of a pattern behind the first. -/
def alternatives (l : Level) : Nat → Telling Unit
  | 0 => return
  | steps + 1 => do
    unless ← listEnds do
      write " | "
      l.written.pattern
      alternatives l steps

/-- The values that a type is restricted to. -/
def pattern (below : Option Level) : Telling Unit := form do
  match ← scan Scan.next with
  | 'R' => do const below false; write "..="; const below false
  | 'O' =>
    let l ← deeper below
    l.written.pattern
    alternatives l ((← unreadLength) + 1)
  | 'N' => write "!null"
  | _ => fail .malformed

/-- The arguments of an interface are left open for the types that it is bound to. -/
def openPath (below : Option Level) : Telling Bool := do
  if ← eat 'B' then follow below false (·.openPath)
  else if ← eat 'I' then
    path below false
    write "<"
    let _ ← listOf ", " (argument (const below) (type below))
    return true
  else
    path below false
    return false

/-- The level above another, or the innermost one. -/
def above (below : Option Level) : Level where
  written :=
    { path := path below
      type := type below
      const := const below
      pattern := pattern below
      openPath := openPath below }
  referred :=
    { path := fun inValue => follow below () (·.path inValue)
      type := follow below () (·.type)
      const := fun inValue => follow below () (·.const inValue)
      pattern := follow below () (·.pattern)
      openPath := follow below false (·.openPath) }

/-- The level with so many steps inside of it. -/
def ofDepth : Nat → Level
  | 0 => above none
  | n + 1 => above (some (ofDepth n))

/-- How deep forms and references may be nested. -/
def maxDepth : Nat := 500

/-- The level of a whole name. -/
def outermost : Level := ofDepth maxDepth

end Level

end ThreadTrace.Mangled
