/-!
# ThreadTrace.Dwarf.Interval — ranges of addresses, and searching them

Ranges are half open, and empty ones are not kept.  Of sorted ranges one is found by halving: the
search never stops early, so of ranges that overlap it settles on the last one that a half has not
excluded.
-/

namespace ThreadTrace.Dwarf

/-- The addresses from `start` up to, but not including, `stop`. -/
structure Interval where
  start : UInt64
  stop : UInt64
  deriving DecidableEq

namespace Interval

def isEmpty (i : Interval) : Bool := i.stop ≤ i.start

def contains (i : Interval) (address : UInt64) : Bool := i.start ≤ address && address < i.stop

/-- Where an interval lies, seen from an address. -/
def compareTo (i : Interval) (address : UInt64) : Ordering :=
  if address < i.start then .gt else if i.stop ≤ address then .lt else .eq

end Interval

/-- Of `size` items from `base` on, the number of the one at which halving ends.  `compare` says
where an item lies, seen from what is looked for. -/
def halve {α : Type} (xs : Array α) (compare : α → Ordering) (base size : Nat) : Nat :=
  if 1 < size then
    let half := size / 2
    match xs[base + half]? with
    | some x =>
      halve xs compare (if compare x = .gt then base else base + half) (size - half)
    | none => base
  else base
  termination_by size
  decreasing_by all_goals omega

/-- The number of an item that is what is looked for, among items in ascending order. -/
def search? {α : Type} (xs : Array α) (compare : α → Ordering) : Option Nat :=
  let place := halve xs compare 0 xs.size
  match xs[place]? with
  | some x => if compare x = .eq then some place else none
  | none => none

theorem lt_size_of_search? {α : Type} {xs : Array α} {compare : α → Ordering} {place : Nat}
    (h : search? xs compare = some place) : place < xs.size := by
  unfold search? at h
  simp only at h
  split at h
  · rename_i x hx
    split at h
    · cases h
      exact (Array.getElem?_eq_some_iff.1 hx).1
    · cases h
  · cases h

end ThreadTrace.Dwarf
