import ThreadTrace.Capture.Destination
import ThreadTrace.Decimal.Style
import ThreadTrace.Timeline.Event

/-!
# ThreadTrace.Timeline.Json — the text of a timeline

The text is written in fragments, in order: a writer that takes only so many bytes gets the first of
them.  Members stand on lines of their own, two blanks further in for each level.
-/

namespace ThreadTrace.Timeline

/-- Times have an exponent when they are very large or very small, and otherwise a fraction.  What
is no number has no text of its own. -/
def timeStyle : Decimal.Style where
  plainFrom := some (-5)
  plainBelow := some 16
  pointZero := true
  plusSign := true
  tie := .even
  nan := "null"
  infinity := "null"
  minusInfinity := "null"

/-! ### Text between quotes -/

/-- The two hexadecimal digits of a control character. -/
def controlDigits (c : Char) : List Char :=
  let ds := Text.hexDigits c.toNat
  List.replicate (2 - ds.length) '0' ++ ds

/-- What stands for a character that cannot stand for itself between quotes. -/
def escape? (c : Char) : Option String :=
  if c = '"' then some "\\\""
  else if c = '\\' then some "\\\\"
  else if c = '\x08' then some "\\b"
  else if c = '\t' then some "\\t"
  else if c = '\n' then some "\\n"
  else if c = '\x0c' then some "\\f"
  else if c = '\r' then some "\\r"
  else if c.toNat < 0x20 then some (String.ofList ("\\u00".toList ++ controlDigits c))
  else none

/-- The fragments of a text without its quotes: escapes, and the stretches between them.  `plain` is
the stretch being read, backwards. -/
def textFragmentsFrom (plain : List Char) : List Char → List String
  | [] => if plain.isEmpty then [] else [String.ofList plain.reverse]
  | c :: cs =>
    match escape? c with
    | none => textFragmentsFrom (c :: plain) cs
    | some e =>
      (if plain.isEmpty then [] else [String.ofList plain.reverse]) ++
        e :: textFragmentsFrom [] cs

/-- The fragments of a text with its quotes. -/
def textFragments (s : String) : List String := "\"" :: textFragmentsFrom [] s.toList ++ ["\""]

/-! ### Members on lines -/

/-- A line break and the blanks in front of what stands at a level. -/
def lineBreak (level : Nat) : List String := "\n" :: List.replicate level "  "

/-- Members between brackets, each on a line at the level inside.  Without members the brackets
stand together. -/
def bracketed (opening closing : String) (level : Nat) (members : List (List String)) :
    List String :=
  match members with
  | [] => [opening, closing]
  | first :: rest =>
    opening :: lineBreakFirst ++ first ++
      rest.flatMap (fun member => separator ++ member) ++ lineBreak level ++ [closing]
where
  lineBreakFirst := lineBreak (level + 1)
  separator := ",\n" :: List.replicate (level + 1) "  "

def array (level : Nat) (items : List (List String)) : List String :=
  bracketed "[" "]" level items

def object (level : Nat) (fields : List (String × List String)) : List String :=
  bracketed "\x7b" "\x7d" level
    (fields.map fun (key, value) => textFragments key ++ ": " :: value)

/-! ### Events -/

def Phase.code : Phase → String
  | begin => "B"
  | finish => "E"
  | instant => "i"
  | metadata => "M"

def Event.fragments (level : Nat) (e : Event) : List String :=
  object level <|
    [("name", textFragments e.name), ("cat", textFragments "function"),
      ("ph", textFragments e.phase.code), ("ts", [timeStyle.render e.time]),
      ("pid", [toString e.process.toNat]), ("tid", [toString e.thread.toNat])] ++
    match e.arg with
    | none => []
    | some (key, value) => [("args", object (level + 1) [(key, textFragments value)])]

/-- The fragments of the whole text. -/
def fragments (t : Timeline) : List String :=
  object 0 [("traceEvents", array 1 (t.events.map (Event.fragments 2))),
    ("displayTimeUnit", textFragments "ms")]

def json (t : Timeline) : String := String.join t.fragments

/-! ### Writing -/

/-- Write fragments one after another to a destination, up to the first that it does not take. -/
def writeFragments {δ : Type} [Destination δ] : List String → δ → Outcome × δ
  | [], d => (.ok (), d)
  | fragment :: rest, d =>
    match Destination.write d (Text.bytes fragment) with
    | (.ok (), d) => writeFragments rest d
    | (.error failure, d) => (.error failure, d)

/-- Write the text to a destination and let it go. -/
def exportTo {δ : Type} [Destination δ] (t : Timeline) (d : δ) : Outcome × δ :=
  let (result, d) := writeFragments t.fragments d
  (result, Destination.release d)

end ThreadTrace.Timeline
