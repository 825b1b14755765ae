/-!
# ThreadTrace.Mangled.Punycode — letters outside ASCII in a text of small letters and digits

The ASCII letters of a text come first; every other letter is a number, written in base 36 with
digits whose weights adapt to the numbers before, that tells how far to go on through all places in
the text and all codes.  `delta?_length` says that every number takes a digit, so reading ends.
-/

namespace ThreadTrace.Mangled.Punycode

/-- `a` to `z` are the digits 0 to 25, and `0` to `9` are 26 to 35. -/
def digit? (c : Char) : Option Nat :=
  if 'a' ≤ c ∧ c ≤ 'z' then some (c.toNat - 'a'.toNat)
  else if c.isDigit then some (c.toNat - '0'.toNat + 26)
  else none

/-- A digit below the threshold of its position is the last one of its number. -/
def threshold (position bias : Nat) : Nat := min (max (position - bias) 1) 26

/-- The number at the front of a list of digits, least digit first, and what follows it. -/
def delta? (bias : Nat) : List Char → Nat → Nat → Option (Nat × List Char)
  | [], _, _ => none
  | c :: cs, position, weight =>
    match digit? c with
    | none => none
    | some d =>
      let t := threshold position bias
      if d < t then some (d * weight, cs)
      else (delta? bias cs (position + 36) (weight * (36 - t))).map fun (n, rest) =>
        (d * weight + n, rest)

theorem delta?_length {bias : Nat} {cs rest : List Char} {position weight n : Nat}
    (h : delta? bias cs position weight = some (n, rest)) : rest.length < cs.length := by
  induction cs generalizing position weight n with
  | nil => simp [delta?] at h
  | cons c cs ih =>
    unfold delta? at h
    split at h
    · cases h
    · simp only at h
      split at h
      · cases h
        simp
      · obtain ⟨⟨m, r⟩, hm, heq⟩ := Option.map_eq_some_iff.1 h
        cases heq
        exact Nat.lt_succ_of_lt (ih hm)

/-- Scale a number down until it is at most 455: how often it was divided, times 36, and the rest.
-/
def scaleDown (n k : Nat) : Nat × Nat :=
  if 455 < n then scaleDown (n / 35) (k + 36) else (k, n)
  termination_by n
  decreasing_by exact Nat.div_lt_self (by omega) (by omega)

/-- The bias for the next number, when the text has `size` letters; the first number is damped
more than the others. -/
def adapt (delta size : Nat) (isFirst : Bool) : Nat :=
  let damped := if isFirst then delta / 700 else delta / 2
  let (k, n) := scaleDown (damped + damped / size) 0
  k + 36 * n / (n + 38)

/-- The most letters that a decoded text may have. -/
def longest : Nat := 128

/-- Insert the letters that a list of digits stands for into a text: the next letter is counted from
place `at_` and code `code` on. -/
def insertAll (digits text : List Char) (at_ code bias : Nat) (isFirst : Bool) :
    Option (List Char) :=
  match h : delta? bias digits 36 1 with
  | none => none
  | some (delta, rest) =>
    let size := text.length + 1
    let code := code + (at_ + delta) / size
    let place := (at_ + delta) % size
    if code.isValidChar ∧ size ≤ longest then
      let text := text.take place ++ Char.ofNat code :: text.drop place
      if rest.isEmpty then some text
      else insertAll rest text (place + 1) code (adapt delta size isFirst) false
    else none
  termination_by digits.length
  decreasing_by exact delta?_length h

/-- The text of an ASCII part and the digits for all other letters. -/
def decode? (ascii digits : List Char) : Option (List Char) :=
  if ascii.length ≤ longest then insertAll digits ascii 0 0x80 72 true else none

end ThreadTrace.Mangled.Punycode
