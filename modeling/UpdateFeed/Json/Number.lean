import UpdateFeed.Binary64.Decimal

/-!
# Numbers of JSON documents

A number is a whole number of at most 64 bits or a double with a sign of its own (so that `-0.0`
differs from `0.0`).  A *literal* is the number as it stands in a text, cut into its digits.

The value of a literal with a fraction, an exponent or too many digits is that of a fast
conversion.  Digits are gathered into a 64-bit significand while the next one fits; the first
one that does not fit ends the gathering in the whole part and in the fraction separately.  The
significand is rounded to a double and then multiplied or divided, with rounding, by a power of
ten that is itself a rounded double.

- `gather_fst_lt`: a gathered significand keeps to 64 bits.
-/

namespace UpdateFeed.Json

/-! ## §1 Numbers -/

/-- A number of a document. -/
inductive Number where
  /-- A whole number; documents hold those from `-2 ^ 63` up to `2 ^ 64 - 1`. -/
  | integer (value : Int)
  /-- A double, given by its sign and its absolute value. -/
  | real (negative : Bool) (magnitude : Binary64)
  deriving DecidableEq, Repr, Inhabited

/-- The text of a number. -/
def Number.chars : Number → List Char
  | .integer value =>
    if value < 0 then '-' :: Nat.toDigits 10 value.natAbs else Nat.toDigits 10 value.natAbs
  | .real negative magnitude =>
    (if negative then ['-'] else []) ++ DecimalLayout.bounded.render magnitude.shortest

/-! ## §2 Literals -/

/-- A number as written: its digits by part, each below ten. -/
structure NumberLiteral where
  negative : Bool
  whole : List Nat
  /-- The digits after the point, if there is one. -/
  fraction? : Option (List Nat)
  /-- Whether the exponent is negative, and its digits, if there is one. -/
  exponent? : Option (Bool × List Nat)
  deriving DecidableEq, Repr

/-- Why a literal has no value: it is beyond the largest double. -/
inductive OutOfRange where
  /-- Noticed while reading the exponent, after this many of its digits. -/
  | inExponent (digits : Nat)
  /-- Noticed when the literal was complete. -/
  | atEnd
  deriving DecidableEq, Repr

/-- The first whole number that does not fit into 64 bits. -/
def wordLimit : Nat := 18446744073709551616

/-- The greatest absolute value of a negative number of 64 bits. -/
def negativeLimit : Nat := 9223372036854775808

/-- Gathers digits into a significand while the next one fits into 64 bits; gives the significand
and the digits that are left. -/
def gather : Nat → List Nat → Nat × List Nat
  | significand, [] => (significand, [])
  | significand, digit :: digits =>
    if significand * 10 + digit < wordLimit then gather (significand * 10 + digit) digits
    else (significand, digit :: digits)

/-- A gathered significand keeps to 64 bits. -/
theorem gather_fst_lt {significand : Nat} (h : significand < wordLimit) (digits : List Nat) :
    (gather significand digits).1 < wordLimit := by
  fun_induction gather significand digits with
  | case1 => exact h
  | case2 s d ds hlt ih => exact ih hlt
  | case3 s d ds hge => exact h

/-- The greatest exponent that a literal may spell out. -/
def exponentLimit : Nat := 2147483647

/-- The value of exponent digits; when it passes the limit, the number of digits read until
then. -/
def readExponent : Nat → Nat → List Nat → Except Nat Nat
  | _, value, [] => .ok value
  | seen, value, digit :: digits =>
    if value * 10 + digit ≤ exponentLimit then readExponent (seen + 1) (value * 10 + digit) digits
    else .error (seen + 1)

/-- The double nearest to a power of ten, up to `10 ^ 308`. -/
def tenPower (k : Nat) : Binary64 :=
  (Binary64.round? (Nat.pow 10 k) 1).getD Binary64.zero

/-- Divides by `10 ^ (308 · steps + last)`, the large power first as often as needed. -/
def divideByTens (last : Nat) : Nat → Binary64 → Option Binary64
  | 0, x => x.div? (tenPower last)
  | steps + 1, x =>
    if x.isZero then some x else (x.div? (tenPower 308)).bind (divideByTens last steps)

/-- The double for `significand · 10 ^ exponent`; nothing when it is beyond the largest one. -/
def scaleByTens (significand : Nat) (exponent : Int) : Option Binary64 :=
  match Binary64.ofNat? significand, exponent with
  | none, _ => none
  | some x, .ofNat k =>
    if k ≤ 308 then x.mul? (tenPower k) else if x.isZero then some x else none
  | some x, .negSucc k => divideByTens (k % 308 + 1) (k / 308) x

/-- A whole number that has no fraction and no exponent: an integer when it keeps to 64 bits with
its sign, else a double. -/
def wholeNumber (negative : Bool) (significand : Nat) : Number :=
  if !negative then .integer significand
  else if significand = 0 ∨ negativeLimit < significand then
    .real true ((Binary64.ofNat? significand).getD Binary64.zero)
  else .integer (-(significand : Int))

/-- The value of a literal. -/
def NumberLiteral.value (literal : NumberLiteral) : Except OutOfRange Number :=
  let (whole, wholeLeft) := gather 0 literal.whole
  match wholeLeft, literal.fraction?, literal.exponent? with
  | [], none, none => .ok (wholeNumber literal.negative whole)
  | _, fraction?, exponent? =>
    -- digits of the whole part that are left over count as powers of ten, those of the fraction not
    let digits := fraction?.getD []
    let (significand, digitsLeft) := gather whole digits
    let shift : Int := (wholeLeft.length : Int) - ((digits.length - digitsLeft.length : Nat) : Int)
    let finish (power : Int) : Except OutOfRange Number :=
      match scaleByTens significand power with
      | some x => .ok (.real literal.negative x)
      | none => .error .atEnd
    match exponent? with
    | none => finish shift
    | some (negative, exponent) =>
      match readExponent 0 0 exponent with
      | .ok power => finish (if negative then shift - power else shift + power)
      | .error seen =>
        -- zero stays zero, and a power far below one makes it of any number
        if significand ≠ 0 ∧ !negative then .error (.inExponent seen)
        else .ok (.real literal.negative Binary64.zero)

end UpdateFeed.Json
