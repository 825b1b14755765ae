import ThreadTrace.Unit

/-!
# ThreadTrace.Capture.Clock — the ticks that events are recorded with

A clock counts nanoseconds from its start on.  What time it is now is asked of the system, by the
program that records.
-/

namespace ThreadTrace

structure Clock where
  /-- The instant of the start, in nanoseconds. -/
  start : Nat
  deriving DecidableEq

namespace Clock

/-- The ticks at an instant, which is given in nanoseconds too.  The last number is kept for ever
once it is reached. -/
def ticks (c : Clock) (instant : Nat) : UInt64 :=
  UInt64.ofNat (min (instant - c.start) (UInt64.size - 1))

/-- Microseconds per tick. -/
def unit : Binary64 := Unit.nanosecond

theorem toNat_ticks (c : Clock) (instant : Nat) :
    (c.ticks instant).toNat = min (instant - c.start) (UInt64.size - 1) := by
  have hlt : min (instant - c.start) (UInt64.size - 1) < UInt64.size := by
    rw [UInt64.size]
    omega
  exact UInt64.toNat_ofNat_of_lt hlt

/-- Ticks never decrease. -/
theorem ticks_le_ticks (c : Clock) {i j : Nat} (h : i ≤ j) : c.ticks i ≤ c.ticks j := by
  rw [UInt64.le_iff_toNat_le, toNat_ticks, toNat_ticks]
  omega

end Clock

end ThreadTrace
