import ThreadTrace.Decimal.Style

/-!
# ThreadTrace.Unit — the timestamp unit and its text

A unit says how many microseconds a tick takes.  Readers take any unit; a writer wants one that is a
number and not below zero.
-/

namespace ThreadTrace.Unit

/-- Units are written positionally, however many zeros that takes. -/
def style : Decimal.Style where
  plainFrom := none
  plainBelow := none
  pointZero := false
  plusSign := false
  tie := .up
  nan := "NaN"
  infinity := "inf"
  minusInfinity := "-inf"

/-- In diagnostics very large and very small units have an exponent, and every other a fraction. -/
def diagnosticStyle : Decimal.Style where
  plainFrom := some (-4)
  plainBelow := some 16
  pointZero := true
  plusSign := false
  tie := .up
  nan := "NaN"
  infinity := "inf"
  minusInfinity := "-inf"

def text (unit : Binary64) : String := style.render unit

def diagnosticText (unit : Binary64) : String := diagnosticStyle.render unit

/-- Whether a writer takes the unit. -/
def isAccepted (unit : Binary64) : Bool := !(unit.isNaN || unit.isNegative)

/-- The unit of a clock that counts nanoseconds. -/
def nanosecond : Binary64 := ⟨0x3F50624DD2F1A9FC⟩

end ThreadTrace.Unit
