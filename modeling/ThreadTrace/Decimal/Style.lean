import ThreadTrace.Decimal.Shortest

/-!
# ThreadTrace.Decimal.Style — how a number is laid out

The digits of a number are chosen by `shortest`; a `Style` says how they are written down: where
positional writing ends, whether a whole number shows a fraction, how an exponent looks, and what
stands for the values that have no digits.
-/

namespace ThreadTrace.Decimal

structure Style where
  /-- Numbers whose leading digit stands for a smaller power of ten are written with an exponent. -/
  plainFrom : Option Int
  /-- The same from this power on. -/
  plainBelow : Option Int
  /-- Whether a whole number is written with `.0`. -/
  pointZero : Bool
  /-- Whether a positive exponent has a plus sign. -/
  plusSign : Bool
  tie : Tie
  nan : String
  infinity : String
  minusInfinity : String

def digits (n : Nat) : List Char := Nat.toDigits 10 n

/-- The digits without the zeros at the end; a lone zero stays. -/
def stripZeros (ds : List Char) : List Char :=
  match (ds.reverse.dropWhile (· == '0')).reverse with
  | [] => ['0']
  | kept => kept

def zeros (n : Nat) : List Char := List.replicate n '0'

namespace Style

/-- `before` digits stand before the point; a negative count asks for zeros behind it. -/
def positional (style : Style) (ds : List Char) (before : Int) : List Char :=
  if before ≤ 0 then '0' :: '.' :: zeros before.natAbs ++ ds
  else if ds.length ≤ before.toNat then
    ds ++ zeros (before.toNat - ds.length) ++ (if style.pointZero then ['.', '0'] else [])
  else ds.take before.toNat ++ '.' :: ds.drop before.toNat

def scientific (style : Style) (ds : List Char) (exponent : Int) : List Char :=
  let fraction := match ds.drop 1 with
    | [] => []
    | rest => '.' :: rest
  let sign := if exponent < 0 then ['-'] else if style.plusSign then ['+'] else []
  ds.take 1 ++ fraction ++ 'e' :: sign ++ digits exponent.natAbs

/-- Whether a number whose leading digit stands for `10 ^ exponent` is written positionally. -/
def isPlain (style : Style) (exponent : Int) : Bool :=
  style.plainFrom.all (· ≤ exponent) && style.plainBelow.all (exponent < ·)

def magnitude (style : Style) (m : Nat) (q : Int) : List Char :=
  if m = 0 then style.positional ['0'] 1
  else
    let s := shortest style.tie m q
    let all := digits s.coefficient
    let exponent := s.exponent + all.length - 1
    let ds := stripZeros all
    if style.isPlain exponent then style.positional ds (exponent + 1)
    else style.scientific ds exponent

/-- The text of a number. -/
def render (style : Style) (x : Binary64) : String :=
  match x.value with
  | .nan => style.nan
  | .infinite false => style.infinity
  | .infinite true => style.minusInfinity
  | .finite negative m q =>
    String.ofList ((if negative then ['-'] else []) ++ style.magnitude m q)

end Style

end ThreadTrace.Decimal
