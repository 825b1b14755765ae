import ThreadTrace.Mangled.Legacy
import ThreadTrace.Mangled.Path

/-!
# ThreadTrace.Mangled.Name — what a linker's name of a function says

Both kinds of mangled names can be followed by words with dots in front, which compilers add to
copies of a function.  What is no mangled name is left as it is.
-/

namespace ThreadTrace.Mangled

/-- The mark of a copy that was made while a program was linked. -/
def importMark : List Char := ".llvm.".toList

/-- What is behind the first mark of an imported copy. -/
def behindMark? : List Char → Option (List Char)
  | [] => none
  | c :: cs =>
    if importMark.isPrefixOf (c :: cs) then some ((c :: cs).drop importMark.length)
    else behindMark? cs

/-- A name without the mark of an imported copy and the number behind it, which has digits, the
letters A to F and `@` only. -/
def withoutImport (s : List Char) : List Char :=
  match behindMark? s with
  | some number =>
    if number.all fun c => c.isDigit || ('A' ≤ c && c ≤ 'F') || c == '@' then
      s.take (s.length - number.length - importMark.length)
    else s
  | none => s

/-- What may follow a mangled name: nothing, or a dot and visible ASCII characters. -/
def isSuffix (s : List Char) : Bool :=
  match s with
  | [] => true
  | c :: _ => c == '.' && s.all fun c => '!' ≤ c && c ≤ '~'

/-- The text of a mangled name and of what follows it. -/
def demangle? (symbol : String) : Option String := do
  let s := withoutImport symbol.toList
  let (text, rest) ← Legacy.read? s <|> Path.read? s
  if isSuffix rest then return text ++ String.ofList rest else none

/-- The text of a symbol; what is no mangled name stands for itself. -/
def demangle (symbol : String) : String :=
  (demangle? symbol).getD (String.ofList (withoutImport symbol.toList))

end ThreadTrace.Mangled
