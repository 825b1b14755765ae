import ThreadTrace.Binary64

/-!
# ThreadTrace.Decimal.Shortest — the fewest digits that read back

A positive number `m * 2 ^ q` of binary64 owns the reals that round to it: an interval around the
number, its ends included when `m` is even.  `shortest` looks for a decimal in that interval, on
coarser grids first, so no decimal with fewer digits reads back; of two neighbours that both do it
takes the nearer.
-/

namespace ThreadTrace.Decimal

/-- Which of two equally near neighbours is taken. -/
inductive Tie where
  | up
  | even
  deriving DecidableEq

/-- The number `coefficient * 10 ^ exponent`. -/
structure Scaled where
  coefficient : Nat
  exponent : Int
  deriving DecidableEq

/-- Powers of a base as a fraction: `scale b k = (b ^ k, 1)` or `(1, b ^ (-k))`. -/
def scale (base : Nat) : Int → Nat × Nat
  | .ofNat k => (base.pow k, 1)
  | .negSucc k => (1, base.pow (k + 1))

/-- The interval of the reals that round to `m * 2 ^ q`, in units of `2 ^ (q - 2)`.  Below a power
of two the neighbour is only half as far away. -/
structure Interval where
  low : Nat
  mid : Nat
  high : Nat
  closed : Bool

def Interval.around (m : Nat) (q : Int) : Interval where
  low := if m = 1 <<< 52 ∧ q ≠ -1074 then 4 * m - 1 else 4 * m - 2
  mid := 4 * m
  high := 4 * m + 2
  closed := m % 2 = 0

/-- Whether a point lies in the interval, both measured on one scale. -/
def Interval.contains (i : Interval) (unit point : Nat) : Bool :=
  if i.closed then decide (i.low * unit ≤ point) && decide (point ≤ i.high * unit)
  else decide (i.low * unit < point) && decide (point < i.high * unit)

/-- The neighbour of `m * 2 ^ q` on the grid of the multiples of `10 ^ k` that reads back as it. -/
def onGrid (tie : Tie) (m : Nat) (q k : Int) : Option Nat :=
  let i := Interval.around m q
  let (num2, den2) := scale 2 (q - 2)
  let (num10, den10) := scale 10 k
  let unit := num2 * den10
  let step := num10 * den2
  let below := i.mid * unit / step
  let hitBelow := i.contains unit (below * step)
  let hitAbove := i.contains unit ((below + 1) * step)
  if hitBelow && hitAbove then
    match compare (2 * (i.mid * unit)) ((2 * below + 1) * step), tie with
    | .lt, _ => some below
    | .gt, _ => some (below + 1)
    | .eq, .up => some (below + 1)
    | .eq, .even => some (if below % 2 = 0 then below else below + 1)
  else if hitBelow then some below
  else if hitAbove then some (below + 1)
  else none

/-- The first of the grids `10 ^ k, 10 ^ (k - 1), …` with a neighbour that reads back. -/
def search (tie : Tie) (m : Nat) (q : Int) : Nat → Int → Scaled
  | 0, k => ⟨0, k⟩
  | steps + 1, k =>
    match onGrid tie m q k with
    | some c => ⟨c, k⟩
    | none => search tie m q steps (k - 1)

/-- An exponent at or above that of the leading digit of `m * 2 ^ q`, and at most two above it:
`1233 / 4096` is the decimal logarithm of two to four places. -/
def topExponent (m : Nat) (q : Int) : Int :=
  ((Nat.log2 m : Int) + q) * 1233 / 4096 + 1

/-- The shortest decimal that reads back as `m * 2 ^ q`, for `0 < m`.  Seventeen digits always
suffice, so twenty grids are enough. -/
def shortest (tie : Tie) (m : Nat) (q : Int) : Scaled :=
  search tie m q 20 (topExponent m q)

end ThreadTrace.Decimal
