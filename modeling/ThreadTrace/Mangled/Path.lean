import ThreadTrace.Mangled.Grammar

/-!
# ThreadTrace.Mangled.Path — names whose forms are described by a grammar

A name after `_R` is a path, and perhaps a second one for the place where it was used.  It is first
read over in silence, which finds its end, and then read again for what it says.
-/

namespace ThreadTrace.Mangled.Path

/-- Paths begin with a capital letter. -/
def startsPath (s : List Char) : Bool := (s.head?.map Char.isUpper).getD false

/-- What follows a path in a symbol, if the path can be read over. -/
def pathEnd? (symbol unread : List Char) : Option (List Char) :=
  ((Level.outermost.written.path false).run.run ⟨symbol, some unread, none, 0⟩).2.unread

/-- What follows a name: its path, and the path of the place where it was used, if there is one. -/
def end? (s : List Char) : Option (List Char) := do
  let rest ← pathEnd? s s
  if startsPath rest then pathEnd? s rest else return rest

/-- The text of the path that a name begins with. -/
def retold (s : List Char) : String :=
  let (result, r) :=
    (Level.outermost.written.path true).run.run ⟨s, some s, some Sheet.blank, 0⟩
  (r.sheet.getD Sheet.blank).close (result.isOk)

/-- What is behind the mark of such names, to which systems add an underscore or none. -/
def withoutPrefix? (s : List Char) : Option (List Char) :=
  match s with
  | '_' :: 'R' :: rest => some rest
  | 'R' :: rest => some rest
  | '_' :: '_' :: 'R' :: rest => some rest
  | _ => none

/-- The text of a mangled name, and what follows the name. -/
def read? (s : List Char) : Option (String × List Char) := do
  let inner ← withoutPrefix? s
  if startsPath inner ∧ inner.all (·.toNat < 128) then
    return (retold inner, ← end? inner)
  else none

end ThreadTrace.Mangled.Path
