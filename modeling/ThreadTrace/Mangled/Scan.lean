import ThreadTrace.Mangled.Punycode

/-!
# ThreadTrace.Mangled.Scan — numbers and identifiers in a mangled name

The words that forms of a name are made of.  A reader of words takes them from the front of what is
unread, or says why it cannot.  All names are ASCII, so a character is a byte.
-/

namespace ThreadTrace.Mangled

/-- Why a name cannot be read on. -/
inductive Fault where
  | malformed
  | tooDeep
  deriving DecidableEq

/-- What a fault leaves in the text. -/
def Fault.mark : Fault → String
  | malformed => "\x7binvalid syntax\x7d"
  | tooDeep => "\x7brecursion limit reached\x7d"

/-- Readers of the unread part of a name. -/
abbrev Scan := StateT (List Char) (Except Fault)

namespace Scan

def next : Scan Char := fun s =>
  match s with
  | c :: rest => .ok (c, rest)
  | [] => .error .malformed

/-- Whether a given character is next; then it is read. -/
def eat (c : Char) : Scan Bool := fun s =>
  if s.head? = some c then .ok (true, s.tail) else .ok (false, s)

def isHexDigit (c : Char) : Bool := c.isDigit || ('a' ≤ c && c ≤ 'f')

/-- Hexadecimal digits, of which there may be none, and the underscore behind them. -/
def hexDigits : Scan (List Char) := fun s =>
  match s.dropWhile isHexDigit with
  | '_' :: rest => .ok (s.takeWhile isHexDigit, rest)
  | _ => .error .malformed

/-- The order of digits in base 62 is 0 to 9, a to z, A to Z. -/
def digit62? (c : Char) : Option Nat :=
  if c.isDigit then some (c.toNat - '0'.toNat)
  else if c.isLower then some (c.toNat - 'a'.toNat + 10)
  else if c.isUpper then some (c.toNat - 'A'.toNat + 36)
  else none

/-- Numbers in a name have 64 bits. -/
def bounded (n : Nat) : Scan Nat := if n < UInt64.size then pure n else throw .malformed

/-- A number in base 62 with an underscore behind it: no digits are zero, and digits are one less
than the number. -/
def number62 : Scan Nat := fun s =>
  match s with
  | '_' :: rest => .ok (0, rest)
  | _ =>
    let isDigit (c : Char) := (digit62? c).isSome
    match s.dropWhile isDigit with
    | '_' :: rest =>
      let digits := (s.takeWhile isDigit).filterMap digit62?
      bounded (digits.foldl (fun n d => 62 * n + d) 0 + 1) rest
    | _ => .error .malformed

/-- Zero, or a tag and one less than the number. -/
def tagged62 (tag : Char) : Scan Nat := do
  if ← eat tag then bounded ((← number62) + 1) else return 0

/-- Tells apart things of one name. -/
def disambiguator : Scan Nat := tagged62 's'

/-- The kind of thing that an identifier names: capital letters stand for kinds that are shown. -/
def kind : Scan (Option Char) := do
  let c ← next
  if c.isUpper then return some c
  else if c.isLower then return none
  else throw .malformed

end Scan

/-- A name as it was written: its ASCII letters, and digits for all others if there are any. -/
structure Identifier where
  ascii : List Char
  digits : List Char
  deriving DecidableEq

namespace Identifier

def isEmpty (i : Identifier) : Bool := i.ascii.isEmpty && i.digits.isEmpty

/-- What is behind the last underscore, and what is before it. -/
def ofEncoded (s : List Char) : Identifier :=
  let digits := (s.reverse.takeWhile (· != '_')).reverse
  ⟨s.take (s.length - digits.length - 1), digits⟩

/-- The text of an identifier, in pieces; one that cannot be decoded is shown as it was written. -/
def shown (i : Identifier) : List String :=
  if i.digits.isEmpty then [String.ofList i.ascii]
  else
    match Punycode.decode? i.ascii i.digits with
    | some text => text.map String.singleton
    | none =>
      let start := if i.ascii.isEmpty then [] else [String.ofList i.ascii, "-"]
      "punycode\x7b" :: start ++ [String.ofList i.digits, "\x7d"]

end Identifier

namespace Scan

/-- The decimal length of an identifier; a leading zero is a length of its own. -/
def length10 : Scan Nat := fun s =>
  match s with
  | '0' :: rest => .ok (0, rest)
  | _ =>
    let digits := s.takeWhile Char.isDigit
    if digits.isEmpty then .error .malformed
    else .ok (digits.foldl (fun n c => 10 * n + (c.toNat - '0'.toNat)) 0, s.dropWhile Char.isDigit)

def takeExactly (n : Nat) : Scan (List Char) := fun s =>
  if n ≤ s.length then .ok (s.take n, s.drop n) else .error .malformed

/-- A length, an underscore if the letters could be taken for digits, and the letters; a `u` in
front says that they are encoded. -/
def identifier : Scan Identifier := do
  let isEncoded ← eat 'u'
  let size ← length10
  let _ ← eat '_'
  let letters ← takeExactly size
  if isEncoded then
    let i := Identifier.ofEncoded letters
    if i.digits.isEmpty then throw .malformed else return i
  else return ⟨letters, []⟩

/-- The place in a name of a given size that is referred to; it lies before the `B` that has just
been read. -/
def backReference (size : Nat) : Scan Nat := do
  let start := size - (← get).length - 1
  let place ← number62
  if place < start then return place else throw .malformed

end Scan

end ThreadTrace.Mangled
