import ThreadTrace.Text.Unprintable

/-!
# ThreadTrace.Text.Quoted — text between quotes

A quoted text stays on one line and shows every character: the quote and the backslash get a
backslash, the usual controls their letter, and what has no visible form its code in hexadecimal.
-/

namespace ThreadTrace.Text

/-- The digits of a number in base sixteen, in small letters. -/
def hexDigits (n : Nat) : List Char := Nat.toDigits 16 n

/-- One character of a text that stands between two `quote`s. -/
def escaped (quote c : Char) : List Char :=
  if c = '\x00' then ['\\', '0']
  else if c = '\t' then ['\\', 't']
  else if c = '\r' then ['\\', 'r']
  else if c = '\n' then ['\\', 'n']
  else if c = '\\' ∨ c = quote then ['\\', c]
  else if isUnprintable c then '\\' :: 'u' :: '\x7b' :: hexDigits c.toNat ++ ['\x7d']
  else [c]

def quotedWith (quote : Char) (cs : List Char) : List Char :=
  quote :: cs.flatMap (escaped quote) ++ [quote]

/-- A text between double quotes. -/
def quoted (s : String) : String := String.ofList (quotedWith '"' s.toList)

end ThreadTrace.Text
