/-!
# ThreadTrace.Mangled.Sheet — text of limited length

A short mangled name can stand for an endless text, since parts of it may be named again and again.
What is written out therefore has room for so many bytes only, and a piece that does not fit is not
begun.
-/

namespace ThreadTrace.Mangled

structure Sheet where
  /-- The pieces that were written, the last one first. -/
  pieces : List String
  /-- The number of bytes that still fit. -/
  room : Nat
  deriving DecidableEq

namespace Sheet

/-- The longest text that a name may stand for. -/
def limit : Nat := 1000000

def blank : Sheet := ⟨[], limit⟩

def text (s : Sheet) : String := String.join s.pieces.reverse

/-- What follows a text that was broken off. -/
def overflowMark : String := "\x7bsize limit reached\x7d"

def write? (s : Sheet) (piece : String) : Option Sheet :=
  if piece.utf8ByteSize ≤ s.room then some ⟨piece :: s.pieces, s.room - piece.utf8ByteSize⟩
  else none

/-- Write pieces for as long as they fit: the sheet, and whether all of them did. -/
def writeAll (s : Sheet) : List String → Sheet × Bool
  | [] => (s, true)
  | piece :: pieces =>
    match s.write? piece with
    | some s => s.writeAll pieces
    | none => (s, false)

/-- A text in one piece, with a mark if it was broken off. -/
def close (s : Sheet) (whole : Bool) : String := if whole then s.text else s.text ++ overflowMark

theorem room_add_size_of_write? {s t : Sheet} {piece : String} (h : s.write? piece = some t) :
    t.room + piece.utf8ByteSize = s.room := by
  unfold write? at h
  split at h
  · cases h
    simp only
    omega
  · cases h

end Sheet

end ThreadTrace.Mangled
