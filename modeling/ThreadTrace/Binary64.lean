/-!
# ThreadTrace.Binary64 — sixty-four-bit floating point numbers as bit patterns

Timestamp units travel through a trace as bit patterns and must come out unchanged, also those that
are not numbers.  So the pattern is the value here; `Binary64.value` says what it stands for, and
only `Binary64.ofTicks` computes with it.
-/

namespace ThreadTrace

/-- A floating point number, by its bits. -/
structure Binary64 where
  bits : UInt64
  deriving DecidableEq

namespace Binary64

/-- What a bit pattern stands for: `finite s m q` is `m * 2 ^ q`, negated when `s` holds. -/
inductive Value where
  | nan
  | infinite (negative : Bool)
  | finite (negative : Bool) (significand : Nat) (exponent : Int)
  deriving DecidableEq

def signBit (x : Binary64) : Bool := decide (1 <<< 63 ≤ x.bits.toNat)

def exponentField (x : Binary64) : Nat := (x.bits.toNat >>> 52) % (1 <<< 11)

def fractionField (x : Binary64) : Nat := x.bits.toNat % (1 <<< 52)

/-- An exponent field of all ones is kept for infinities and NaNs, one of zero for the subnormal
numbers, whose leading bit is not implied. -/
def value (x : Binary64) : Value :=
  if x.exponentField = 2047 then
    if x.fractionField = 0 then .infinite x.signBit else .nan
  else if x.exponentField = 0 then .finite x.signBit x.fractionField (-1074)
  else .finite x.signBit ((1 <<< 52) + x.fractionField) ((x.exponentField : Int) - 1075)

def isNaN (x : Binary64) : Bool := x.value == .nan

/-- Strictly below zero; the negative zero is not. -/
def isNegative (x : Binary64) : Bool :=
  match x.value with
  | .nan => false
  | .infinite negative => negative
  | .finite negative significand _ => negative && significand != 0

def one : Binary64 := ⟨0x3FF0000000000000⟩

/-- The product of a tick count, rounded to the nearest number, and a unit. -/
def ofTicks (ticks : UInt64) (unit : Binary64) : Binary64 :=
  ⟨(ticks.toFloat * Float.ofBits unit.bits).toBits⟩

end Binary64

end ThreadTrace
