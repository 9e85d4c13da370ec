import UpdateFeed.Binary64.Basic

/-!
# Decimal text of doubles

Reading: the double nearest to an exact decimal `digits · 10 ^ exponent`.

Writing: the decimal with the fewest digits that lies in the interval of numbers which round to
the given double; among several of that length the nearest one, and of two equally near ones the
one with an even last digit.  A `DecimalLayout` says how the digits are set.

The search looks, for 1, 2, … digits, at the two neighbours of the exact value on the grid of
decimals of that many digits.  If a grid has a point in the interval, one of the two neighbours
is in it, and a grid of 17 digits always has one.
-/

namespace UpdateFeed

/-! ## §1 Decimals -/

/-- The number `digits · 10 ^ exponent`. -/
structure Decimal where
  digits : Nat
  exponent : Int
  deriving DecidableEq, Repr, Inhabited

namespace Decimal

/-- A decimal as a numerator and a denominator. -/
def fraction (d : Decimal) : Nat × Nat :=
  match d.exponent with
  | .ofNat k => (d.digits * Nat.pow 10 k, 1)
  | .negSucc k => (d.digits, Nat.pow 10 (k + 1))

/-- The number of decimal digits of a natural number; zero has one. -/
def length (n : Nat) : Nat := (Nat.toDigits 10 n).length

/-- The double nearest to a decimal; nothing on overflow.  A decimal below `10 ^ -400` is zero and
one of at least `10 ^ 400` overflows, so the powers that are computed stay small. -/
def toBinary64? (d : Decimal) : Option Binary64 :=
  let magnitude := (length d.digits : Int) + d.exponent
  if d.digits = 0 then some Binary64.zero
  else if magnitude < -400 then some Binary64.zero
  else if 400 < magnitude then none
  else Binary64.round? d.fraction.1 d.fraction.2

/-- Drops the zeros at the end of the digits, at most `fuel` of them. -/
def trim : Nat → Decimal → Decimal
  | 0, d => d
  | fuel + 1, d =>
    if d.digits ≠ 0 ∧ d.digits % 10 = 0 then trim fuel ⟨d.digits / 10, d.exponent + 1⟩ else d

end Decimal

/-! ## §2 Shortest digits -/

namespace Binary64

/-- The numbers that round to a double, as an interval with common denominator `den`; the ends
belong to it when `closed` holds. -/
structure Interval where
  low : Nat
  value : Nat
  high : Nat
  den : Nat
  closed : Bool

/-- The rounding interval of a double other than zero.  The gap below a power of two is half the
gap above it, except at the least exponent. -/
def interval (x : Binary64) : Interval :=
  let below := if x.significand = binade ∧ -1074 < x.exponent then 1 else 2
  let ends (quarters : Nat) : Nat × Nat := scale quarters (x.exponent - 2)
  let value := ends (4 * x.significand)
  { low := (ends (4 * x.significand - below)).1
    value := value.1
    high := (ends (4 * x.significand + 2)).1
    den := value.2
    closed := x.significand % 2 = 0 }

/-- Whether `num / unit` is in the interval, where `unit` divides the same way as `den`. -/
def Interval.contains (i : Interval) (num : Nat) : Bool :=
  if i.closed then decide (i.low ≤ num) && decide (num ≤ i.high)
  else decide (i.low < num) && decide (num < i.high)

/-- The better of the two neighbours of the value on the grid of multiples of `10 ^ power`, if
either lies in the interval. -/
def onGrid? (i : Interval) (power : Int) : Option Decimal :=
  -- All numbers over one denominator: the grid unit is `unit / common`.
  let (unit, factor) : Nat × Nat :=
    match power with
    | .ofNat k => (i.den * Nat.pow 10 k, 1)
    | .negSucc k => (i.den, Nat.pow 10 (k + 1))
  let scaled : Interval :=
    { low := i.low * factor, value := i.value * factor, high := i.high * factor
      den := i.den * factor, closed := i.closed }
  let down := scaled.value / unit
  let up := down + 1
  let rest := scaled.value % unit
  match down != 0 && scaled.contains (down * unit), scaled.contains (up * unit) with
  | true, true =>
    if 2 * rest < unit ∨ (2 * rest = unit ∧ down % 2 = 0) then some ⟨down, power⟩
    else some ⟨up, power⟩
  | true, false => some ⟨down, power⟩
  | false, true => some ⟨up, power⟩
  | false, false => none

/-- The first grid with a hit, from the coarse one with unit `10 ^ power` downwards. -/
def searchGrids (i : Interval) : Nat → Int → Option Decimal
  | 0, _ => none
  | fuel + 1, power => (onGrid? i power).orElse fun _ => searchGrids i fuel (power - 1)

/-- The power of ten of the first digit of a number, or one more. -/
def leadingPower (x : Binary64) : Int :=
  let (num, den) := x.fraction
  if den ≤ num then (Decimal.length (num / den) : Int) - 1
  else -(Decimal.length (den / num) : Int) + 1

/-- The shortest decimal that rounds to the double, without zeros at its end. -/
def shortest (x : Binary64) : Decimal :=
  if x.isZero then ⟨0, 0⟩
  else
    match searchGrids x.interval 20 (x.leadingPower + 1) with
    | some d => d.trim 25
    | none => ⟨x.fraction.1, 0⟩

end Binary64

/-! ## §3 Layout -/

/-- How decimal digits are set: positionally where the power of ten of the first digit is within
the bounds that are given, else with an exponent. -/
structure DecimalLayout where
  /-- Least power of ten of the first digit that is still written positionally. -/
  least? : Option Int
  /-- Greatest power of ten of the first digit that is still written positionally. -/
  greatest? : Option Int
  deriving DecidableEq, Repr

namespace DecimalLayout

/-- Positional notation from `1e-5` up to below `1e16`, an exponent with its sign elsewhere. -/
def bounded : DecimalLayout := ⟨some (-5), some 15⟩

/-- Positional notation throughout. -/
def positional : DecimalLayout := ⟨none, none⟩

/-- Whether a number whose first digit counts `10 ^ power` is written positionally. -/
def admits (layout : DecimalLayout) (power : Int) : Bool :=
  layout.least?.all (decide <| · ≤ power) && layout.greatest?.all (decide <| power ≤ ·)

/-- Digits with a point, and at least one digit on either side of it. -/
def setPositional (digits : List Char) (exponent : Int) : List Char :=
  match exponent with
  | .ofNat k => digits ++ List.replicate k '0' ++ ['.', '0']
  | .negSucc k =>
    let places := k + 1
    if places < digits.length then
      digits.take (digits.length - places) ++ '.' :: digits.drop (digits.length - places)
    else '0' :: '.' :: List.replicate (places - digits.length) '0' ++ digits

/-- One digit, the others after a point, and the power of ten with its sign. -/
def setScientific (digits : List Char) (power : Int) : List Char :=
  let mantissa :=
    match digits with
    | [] => []
    | [d] => [d]
    | d :: others => d :: '.' :: others
  let sign := if power < 0 then '-' else '+'
  mantissa ++ 'e' :: sign :: Nat.toDigits 10 power.natAbs

/-- The text of a decimal. -/
def render (layout : DecimalLayout) (d : Decimal) : List Char :=
  let digits := Nat.toDigits 10 d.digits
  let power := (digits.length : Int) + d.exponent - 1
  if d.digits = 0 then ['0', '.', '0']
  else if layout.admits power then setPositional digits d.exponent
  else setScientific digits power

end DecimalLayout

end UpdateFeed
