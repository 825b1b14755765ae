import ThreadTrace.Mangled.Sheet

/-!
# ThreadTrace.Mangled.Legacy — names whose parts are written with their lengths

A path `a::b` is written `_ZN1a1bE`.  What linkers do not allow in a name is written as dots and
between dollar signs, and the last part is a hash of the name, which is not shown.
-/

namespace ThreadTrace.Mangled.Legacy

/-- The number that decimal digits stand for. -/
def number (digits : List Char) : Nat :=
  digits.foldl (fun n c => 10 * n + (c.toNat - '0'.toNat)) 0

/-- The parts of a name up to the `E` that closes it, and what follows the `E`. -/
def elements? (s : List Char) : Option (List (List Char) × List Char) :=
  match s with
  | [] => none
  | 'E' :: rest => some ([], rest)
  | c :: cs =>
    if c.isDigit then
      let size := number (c :: cs.takeWhile Char.isDigit)
      let rest := cs.dropWhile Char.isDigit
      (elements? (rest.drop size)).map fun (parts, after) => (rest.take size :: parts, after)
    else none
  termination_by s.length
  decreasing_by
    have : (cs.dropWhile Char.isDigit).length ≤ cs.length := (List.dropWhile_sublist _).length_le
    simp only [List.length_drop, List.length_cons]
    omega

def isHexDigit (c : Char) : Bool :=
  c.isDigit || ('a' ≤ c && c ≤ 'f') || ('A' ≤ c && c ≤ 'F')

/-- A hash is an `h` and hexadecimal digits. -/
def isHash : List Char → Bool
  | 'h' :: digits => digits.all isHexDigit
  | _ => false

/-- Characters that have a name of their own between dollar signs. -/
def namedEscapes : List (String × String) :=
  [("SP", "@"), ("BP", "*"), ("RF", "&"), ("LT", "<"), ("GT", ">"), ("LP", "("), ("RP", ")"),
    ("C", ",")]

/-- The value of a hexadecimal digit in small letters. -/
def hexValue? (c : Char) : Option Nat :=
  if c.isDigit then some (c.toNat - '0'.toNat)
  else if 'a' ≤ c ∧ c ≤ 'f' then some (c.toNat - 'a'.toNat + 10)
  else none

/-- Characters that are not to be shown by their codes. -/
def isControl (n : Nat) : Bool := n < 0x20 || (0x7F ≤ n && n < 0xA0)

/-- The text of what stands between two dollar signs; any character that is no control can be
written as `u` and its code. -/
def escape? (code : List Char) : Option String :=
  match namedEscapes.lookup (String.ofList code) with
  | some text => some text
  | none =>
    match code with
    | 'u' :: digits => do
      let values ← digits.mapM hexValue?
      let n := values.foldl (fun n d => 16 * n + d) 0
      if n.isValidChar ∧ isControl n = false then
        some (String.singleton (Char.ofNat n))
      else none
    | _ => none

/-- What is in front of the next dollar sign, and what is behind it. -/
def upToDollar? : List Char → Option (List Char × List Char)
  | [] => none
  | c :: cs => if c = '$' then some ([], cs) else (upToDollar? cs).map fun (a, b) => (c :: a, b)

theorem upToDollar?_length {s code rest : List Char} (h : upToDollar? s = some (code, rest)) :
    rest.length < s.length := by
  induction s generalizing code with
  | nil => simp [upToDollar?] at h
  | cons c cs ih =>
    unfold upToDollar? at h
    split at h
    · cases h
      simp
    · obtain ⟨⟨a, b⟩, hab, heq⟩ := Option.map_eq_some_iff.1 h
      cases heq
      exact Nat.lt_succ_of_lt (ih hab)

/-- The text of the escape at the front, whose dollar sign has been read, and what is behind it. -/
def escapeAt? (s : List Char) : Option (String × List Char) := do
  let (code, rest) ← upToDollar? s
  return (← escape? code, rest)

theorem escapeAt?_length {s rest : List Char} {text : String}
    (h : escapeAt? s = some (text, rest)) : rest.length < s.length := by
  obtain ⟨⟨code, after⟩, hcode, h⟩ := Option.bind_eq_some_iff.1 h
  obtain ⟨shown, -, heq⟩ := Option.bind_eq_some_iff.1 h
  cases heq
  exact upToDollar?_length hcode

/-- Characters that stand for themselves. -/
def isPlain (c : Char) : Bool := c != '$' && c != '.'

/-- Two dots separate parts of a path; behind an escape that is none, all is left as it stands. -/
def shown (s : List Char) : List String :=
  match s with
  | [] => []
  | '.' :: '.' :: rest => "::" :: shown rest
  | '.' :: rest => "." :: shown rest
  | '$' :: rest =>
    match h : escapeAt? rest with
    | some (text, after) =>
      have := escapeAt?_length h
      text :: shown after
    | none => [String.ofList s]
  | c :: rest =>
    have := (List.dropWhile_sublist (l := rest) isPlain).length_le
    String.ofList (c :: rest.takeWhile isPlain) :: shown (rest.dropWhile isPlain)
  termination_by s.length
  decreasing_by all_goals
    simp only [List.length_cons]
    omega

/-- A part of a path; an underscore before an escape is there for the linker only. -/
def shownElement : List Char → List String
  | '_' :: '$' :: rest => shown ('$' :: rest)
  | s => shown s

/-- The parts of a path without the hash at its end. -/
def withoutHash (parts : List (List Char)) : List (List Char) :=
  match parts.getLast? with
  | some last => if isHash last then parts.dropLast else parts
  | none => parts

/-- The text of a path, in pieces. -/
def shownPath (parts : List (List Char)) : List String :=
  ["::"].intercalate ((withoutHash parts).map shownElement)

/-- What is behind the mark of such names, to which systems add an underscore or none. -/
def withoutPrefix? (s : List Char) : Option (List Char) :=
  match s with
  | '_' :: 'Z' :: 'N' :: rest => some rest
  | 'Z' :: 'N' :: rest => some rest
  | '_' :: '_' :: 'Z' :: 'N' :: rest => some rest
  | _ => none

/-- The text of a mangled name, and what follows the name. -/
def read? (s : List Char) : Option (String × List Char) := do
  let inner ← withoutPrefix? s
  if inner.all (·.toNat < 128) then
    let (parts, after) ← elements? inner
    let (sheet, whole) := Sheet.blank.writeAll (shownPath parts)
    return (sheet.close whole, after)
  else none

end ThreadTrace.Mangled.Legacy
