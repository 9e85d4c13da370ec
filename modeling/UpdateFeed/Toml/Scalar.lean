import UpdateFeed.Calendar
import UpdateFeed.Toml.Text
import UpdateFeed.Toml.Value

/-!
# Numbers and moments of TOML

A number is tried as a date or a time of day, then as a floating point number, then as an integer.
Integers have 64 bits and may be written in base 2, 8, 10 and 16; underscores may stand between
digits.  A floating point number is the nearest double; one that is too large is refused when it is
positive and infinite when it is negative.

Moments are checked against the calendar and kept in normal form: `T` between date and time, no
zeros at the end of a fraction of at most nine digits, and `Z` for universal time.
-/

namespace UpdateFeed.Toml

/-! ## §1 Digits -/

/-- The value of a decimal digit. -/
def digitValue (c : Char) : Nat := c.toNat - '0'.toNat

/-- Digits of a base behind the first one, with single underscores between them. -/
def readMoreDigits (value? : Char → Option Nat) : Reader (List Nat)
  | '_' :: c :: rest =>
    (value? c).bind fun digit =>
      (readMoreDigits value? rest).map fun (digits, rest) => (digit :: digits, rest)
  | c :: rest =>
    match value? c with
    | some digit => (readMoreDigits value? rest).map fun (digits, rest) => (digit :: digits, rest)
    | none => if c = '_' then none else some ([], c :: rest)
  | [] => some ([], [])

/-- Digits of a base, at least one. -/
def readDigits (value? : Char → Option Nat) : Reader (List Nat)
  | [] => none
  | c :: rest =>
    (value? c).bind fun digit =>
      (readMoreDigits value? rest).map fun (digits, rest) => (digit :: digits, rest)

/-- The value of a digit of a base up to ten. -/
def digitBelow? (base : Nat) (c : Char) : Option Nat :=
  if c.isDigit ∧ digitValue c < base then some (digitValue c) else none

/-- The number with some digits in a base. -/
def ofDigits (base : Nat) (digits : List Nat) : Nat :=
  digits.foldl (fun value digit => value * base + digit) 0

/-- A sign, and whether it is a minus. -/
def readSign : List Char → Bool × List Char
  | '+' :: rest => (false, rest)
  | '-' :: rest => (true, rest)
  | rest => (false, rest)

/-- The digits of a decimal whole number: a single digit, or several that do not begin with
zero. -/
def readDecimalDigits : Reader (List Nat)
  | '0' :: rest => some ([0], rest)
  | text => readDigits (digitBelow? 10) text

/-! ## §2 Integers -/

/-- The greatest absolute value of a negative integer. -/
def integerLimit : Nat := 9223372036854775808

/-- A whole number with its sign, if it has 64 bits. -/
def integer? (negative : Bool) (magnitude : Nat) : Option Value :=
  if negative then
    if magnitude ≤ integerLimit then some (.integer (-(magnitude : Int))) else none
  else if magnitude < integerLimit then some (.integer magnitude) else none

/-- An integer in a base that is told by its first two characters. -/
def readInBase (base : Nat) (value? : Char → Option Nat) (text : List Char) :
    Option (Value × List Char) := do
  let (digits, rest) ← readDigits value? text
  return (← integer? false (ofDigits base digits), rest)

/-- An integer. -/
def readInteger : Reader Value
  | '0' :: 'x' :: rest => readInBase 16 hexValue? rest
  | '0' :: 'o' :: rest => readInBase 8 (digitBelow? 8) rest
  | '0' :: 'b' :: rest => readInBase 2 (digitBelow? 2) rest
  | text => do
    let (negative, rest) := readSign text
    let (digits, rest) ← readDecimalDigits rest
    return (← integer? negative (ofDigits 10 digits), rest)

/-! ## §3 Floating point numbers -/

/-- The exponent of a number: whether it is negative, and its digits. -/
def readExponent : Reader (Bool × List Nat)
  | c :: rest =>
    if c = 'e' ∨ c = 'E' then
      let (negative, rest) := readSign rest
      (readDigits (digitBelow? 10) rest).map fun (digits, rest) => ((negative, digits), rest)
    else none
  | [] => none

/-- The number with a decimal value, as a double. -/
def real? (negative : Bool) (decimal : Decimal) : Option Value :=
  match decimal.toBinary64? with
  | some magnitude => some (.real (.finite negative magnitude))
  | none => if negative then some (.real (.infinite true)) else none

/-- What starts like a whole number and goes on with a fraction or an exponent; the outer nothing
says that it does neither. -/
def readFloat? (text : List Char) : Option (Option (Value × List Char)) := do
  let (negative, rest) := readSign text
  let (whole, rest) ← readDecimalDigits rest
  match rest with
  | '.' :: rest =>
    some do
      let (fraction, rest) ← readDigits (digitBelow? 10) rest
      let shift := -(fraction.length : Int)
      let digits := ofDigits 10 (whole ++ fraction)
      match rest with
      | c :: _ =>
        if c = 'e' ∨ c = 'E' then
          let ((down, exponent), rest) ← readExponent rest
          let power : Int := ofDigits 10 exponent
          return (← real? negative ⟨digits, if down then shift - power else shift + power⟩, rest)
        else return (← real? negative ⟨digits, shift⟩, rest)
      | [] => return (← real? negative ⟨digits, shift⟩, rest)
  | c :: _ =>
    if c = 'e' ∨ c = 'E' then
      some do
        let ((down, exponent), rest) ← readExponent rest
        let power : Int := ofDigits 10 exponent
        return (← real? negative ⟨ofDigits 10 whole, if down then -power else power⟩, rest)
    else none
  | [] => none

/-- An infinity or the value that is no number. -/
def readSpecial (text : List Char) : Option (Value × List Char) :=
  let (negative, rest) := readSign text
  match rest with
  | 'i' :: 'n' :: 'f' :: rest => some (.real (.infinite negative), rest)
  | 'n' :: 'a' :: 'n' :: rest => some (.real .notANumber, rest)
  | _ => none

/-! ## §4 Moments -/

/-- A number of exactly two digits. -/
def readTwo : Reader Nat
  | a :: b :: rest =>
    if a.isDigit ∧ b.isDigit then some (digitValue a * 10 + digitValue b, rest) else none
  | _ => none

/-- A number of two digits within bounds. -/
def readTwoWithin (least greatest : Nat) (text : List Char) : Option (Nat × List Char) := do
  let (value, rest) ← readTwo text
  if least ≤ value ∧ value ≤ greatest then some (value, rest) else none

/-- A number of exactly four digits. -/
def readFour (text : List Char) : Option (Nat × List Char) := do
  let (high, rest) ← readTwo text
  let (low, rest) ← readTwo rest
  return (high * 100 + low, rest)

/-- A fixed character. -/
def readSign? (c : Char) : List Char → Option (List Char)
  | d :: rest => if c = d then some rest else none
  | [] => none

/-- A date that exists. -/
def readDate (text : List Char) : Option (List Char × List Char) := do
  let (year, rest) ← readFour text
  let rest ← readSign? '-' rest
  let (month, rest) ← readTwoWithin 1 12 rest
  let rest ← readSign? '-' rest
  let (day, rest) ← readTwoWithin 1 31 rest
  if day ≤ Date.daysInMonth year month then
    let date :=
      Instant.padded 4 year ++ '-' :: Instant.padded 2 month ++ '-' :: Instant.padded 2 day
    some (date, rest)
  else none

/-- Digits without the zeros at their end. -/
def dropZeros (digits : List Char) : List Char :=
  (digits.reverse.dropWhile (· = '0')).reverse

/-- The fraction of a second in normal form, if there is one. -/
def readSecondFraction : List Char → Option (List Char × List Char)
  | '.' :: rest =>
    match rest.takeWhile Char.isDigit with
    | [] => none
    | digits =>
      match dropZeros (digits.take 9) with
      | [] => some ([], rest.drop digits.length)
      | kept => some ('.' :: kept, rest.drop digits.length)
  | rest => some ([], rest)

/-- A time of day. -/
def readTime (text : List Char) : Option (List Char × List Char) := do
  let (hour, rest) ← readTwoWithin 0 23 text
  let rest ← readSign? ':' rest
  let (minute, rest) ← readTwoWithin 0 59 rest
  let rest ← readSign? ':' rest
  let (second, rest) ← readTwoWithin 0 60 rest
  let (fraction, rest) ← readSecondFraction rest
  return (Instant.padded 2 hour ++ ':' :: Instant.padded 2 minute ++ ':' :: Instant.padded 2 second
    ++ fraction, rest)

/-- The distance from universal time, if there is one. -/
def readOffset : List Char → Option (List Char × List Char)
  | [] => some ([], [])
  | c :: rest =>
    if c = 'Z' ∨ c = 'z' then some (['Z'], rest)
    else if c = '+' ∨ c = '-' then do
      let (hour, rest) ← readTwoWithin 0 23 rest
      let rest ← readSign? ':' rest
      let (minute, rest) ← readTwoWithin 0 59 rest
      let sign := if hour = 0 ∧ minute = 0 then '+' else c
      return (sign :: Instant.padded 2 hour ++ ':' :: Instant.padded 2 minute, rest)
    else some ([], c :: rest)

/-- The time behind a date, if there is one; a blank that no time follows is left. -/
def readTimeBehind (text : List Char) : Option (List Char × List Char) :=
  match text with
  | c :: rest =>
    if (c = 'T' ∨ c = 't' ∨ c = ' ') ∧ (readTwo rest).isSome then do
      let (time, rest) ← readTime rest
      let (offset, rest) ← readOffset rest
      return ('T' :: time ++ offset, rest)
    else some ([], text)
  | [] => some ([], [])

/-- Whether a text starts like a date or a time of day. -/
def startsMoment (text : List Char) : Bool :=
  match text with
  | a :: b :: c :: d :: e :: _ =>
    a.isDigit && b.isDigit && (c = ':' || (c.isDigit && d.isDigit && e = '-'))
  | a :: b :: c :: _ => a.isDigit && b.isDigit && c = ':'
  | _ => false

/-- A date, a time of day, or both. -/
def readMoment (text : List Char) : Option (Value × List Char) :=
  match readFour text with
  | some _ => do
    let (date, rest) ← readDate text
    let (time, rest) ← readTimeBehind rest
    return (.moment (String.ofList (date ++ time)), rest)
  | none => (readTime text).map fun (time, rest) => (.moment (String.ofList time), rest)

/-! ## §5 Numbers of any kind -/

/-- A value that starts with a sign or a digit. -/
def readNumber (text : List Char) : Option (Value × List Char) :=
  if startsMoment text then readMoment text
  else
    match readFloat? text with
    | some result => result
    | none => (readSpecial text).orElse fun _ => readInteger text

end UpdateFeed.Toml
