/-!
# ThreadTrace.Text.Blank — white space and the fields between it

The class is Unicode's White_Space, which has twenty-five members.  A field is a longest stretch
without any of them.
-/

namespace ThreadTrace.Text

def isBlank (c : Char) : Bool :=
  let n := c.toNat
  (9 ≤ n && n ≤ 13) || n == 0x20 || n == 0x85 || n == 0xA0 || n == 0x1680 ||
    (0x2000 ≤ n && n ≤ 0x200A) || n == 0x2028 || n == 0x2029 || n == 0x202F || n == 0x205F ||
    n == 0x3000

/-- The fields of a text; `field` is the one being read, backwards. -/
def fieldsFrom (field : List Char) : List Char → List (List Char)
  | [] => if field.isEmpty then [] else [field.reverse]
  | c :: cs =>
    if isBlank c then
      if field.isEmpty then fieldsFrom [] cs else field.reverse :: fieldsFrom [] cs
    else fieldsFrom (c :: field) cs

/-- The longest stretches without white space, in order. -/
def fields (cs : List Char) : List (List Char) := fieldsFrom [] cs

/-- The lines of a text: a line feed ends a line, a carriage return right before it is dropped, and
nothing behind the last line feed is no line. -/
def linesFrom (line : List Char) : List Char → List (List Char)
  | [] => if line.isEmpty then [] else [line.reverse]
  | c :: cs =>
    if c = '\n' then
      (match line with
        | '\r' :: kept => kept.reverse
        | kept => kept.reverse) :: linesFrom [] cs
    else linesFrom (c :: line) cs

def lines (cs : List Char) : List (List Char) := linesFrom [] cs

end ThreadTrace.Text
