/-!
# ThreadTrace.Bytes.Slice — parts of a byte string

Files and their sections refer to parts of themselves by place and size; a part that does not lie
within the bytes is none.
-/

namespace ThreadTrace.Slice

/-- The bytes at a place. -/
def at? (bs : List UInt8) (start size : Nat) : Option (List UInt8) :=
  if start + size ≤ bs.length then some ((bs.drop start).take size) else none

theorem length_of_at? {bs part : List UInt8} {start size : Nat}
    (h : at? bs start size = some part) :
    part.length = size := by
  unfold at? at h
  split at h
  · cases h
    rw [List.length_take, List.length_drop]
    omega
  · cases h

/-- The bytes in front of the first zero, and those behind it. -/
def terminated? (bs : List UInt8) : Option (List UInt8 × List UInt8) :=
  match bs with
  | [] => none
  | b :: bs => if b = 0 then some ([], bs) else (terminated? bs).map fun (t, rest) => (b :: t, rest)

/-- A text that starts at a place in a table of texts, each of which ends with a zero. -/
def textAt? (table : List UInt8) (start : Nat) : Option (List UInt8) :=
  (terminated? (table.drop start)).map (·.1)

/-- Parts of equal size; what is left over at the end belongs to none. -/
def chunks (size : Nat) (bs : List UInt8) : List (List UInt8) :=
  if 0 < size ∧ size ≤ bs.length then bs.take size :: chunks size (bs.drop size) else []
  termination_by bs.length
  decreasing_by
    rw [List.length_drop]
    omega

end ThreadTrace.Slice
