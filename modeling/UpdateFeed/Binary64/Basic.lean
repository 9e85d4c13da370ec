/-!
# Finite doubles in exact arithmetic

The non-negative finite numbers of the 64-bit binary format, counted upwards from zero.  The
number of rank `r` is `significand · 2 ^ exponent`, with 53 bits of significand above the
subnormal range.  Everything here is natural-number arithmetic: a rational is rounded to the
nearest double, a half goes to the even neighbour, and a product or quotient of doubles is the
rounded exact result.
-/

namespace UpdateFeed

/-! ## §1 Rounding quotients -/

/-- The whole number nearest to `num / den`; a half goes to the even neighbour. -/
def nearest (num den : Nat) : Nat :=
  let quotient := num / den
  let twice := 2 * (num % den)
  if twice < den then quotient
  else if den < twice then quotient + 1
  else quotient + quotient % 2

/-! ## §2 Doubles by rank -/

namespace Binary64

/-- The number of significands at each exponent above the least one, which is `2 ^ 52`. -/
def binade : Nat := 4503599627370496

/-- The number of non-negative finite doubles, which is `2047 · 2 ^ 52`. -/
def count : Nat := 9218868437227405312

end Binary64

/-- A non-negative finite double, given by its place in increasing order. -/
structure Binary64 where
  rank : Nat
  rank_lt : rank < Binary64.count
  deriving DecidableEq, Repr

namespace Binary64

instance : Inhabited Binary64 := ⟨⟨0, by decide⟩⟩

/-- The double `0`. -/
def zero : Binary64 := ⟨0, by decide⟩

/-- Whether a double is `0`. -/
def isZero (x : Binary64) : Bool := x.rank == 0

/-- The power of two of the last significand bit. -/
def exponent (x : Binary64) : Int :=
  if x.rank < binade then -1074 else (x.rank / binade : Nat) - 1075

/-- The significand as a whole number below `2 ^ 53`. -/
def significand (x : Binary64) : Nat :=
  if x.rank < binade then x.rank else binade + x.rank % binade

/-- The double of a given rank, unless the rank is beyond the largest finite one. -/
def ofRank? (rank : Nat) : Option Binary64 :=
  if h : rank < count then some ⟨rank, h⟩ else none

/-- `value · 2 ^ exponent` as a numerator and a denominator. -/
def scale (value : Nat) : Int → Nat × Nat
  | .ofNat k => (value * Nat.pow 2 k, 1)
  | .negSucc k => (value, Nat.pow 2 (k + 1))

/-- A double as a numerator and a denominator. -/
def fraction (x : Binary64) : Nat × Nat :=
  scale x.significand x.exponent

/-! ## §3 Rounding -/

/-- The exponent at which `num / den` has a significand of 53 bits, or the least exponent. -/
def roundingExponent (num den : Nat) : Int :=
  let bits : Int := (num.log2 : Int) - (den.log2 : Int)
  let atLeast : Bool :=
    match bits with
    | .ofNat k => den * Nat.pow 2 k ≤ num
    | .negSucc k => den ≤ num * Nat.pow 2 (k + 1)
  let exponent := if atLeast then bits - 52 else bits - 53
  if exponent < -1074 then -1074 else exponent

/-- The double nearest to `num / den`, a half going to the even neighbour; nothing when that is
beyond the largest finite double. -/
def round? (num den : Nat) : Option Binary64 :=
  if den = 0 then none
  else if num = 0 then some zero
  else
    let exponent := roundingExponent num den
    let units :=
      match exponent with
      | .ofNat k => nearest num (den * Nat.pow 2 k)
      | .negSucc k => nearest (num * Nat.pow 2 (k + 1)) den
    ofRank? ((exponent + 1074).toNat * binade + units)

/-- The double nearest to a natural number. -/
def ofNat? (n : Nat) : Option Binary64 := round? n 1

/-- The product of two doubles, rounded; nothing on overflow. -/
def mul? (x y : Binary64) : Option Binary64 :=
  round? (x.fraction.1 * y.fraction.1) (x.fraction.2 * y.fraction.2)

/-- The quotient of two doubles, rounded; nothing on overflow or when the divisor is zero. -/
def div? (x y : Binary64) : Option Binary64 :=
  round? (x.fraction.1 * y.fraction.2) (x.fraction.2 * y.fraction.1)

end Binary64

end UpdateFeed
