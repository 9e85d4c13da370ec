import UpdateFeed.Proofs.Json.NumberText
import UpdateFeed.Proofs.Json.Scaling

/-!
# Reading back printed doubles

The text of a double is a numeral of its shortest decimal.  Read again, its digits are gathered
without a loss and scaled by its power of ten, which gives a double.  It is the same one where the
digits have at most 53 bits and the power is at most that of `10 ^ 22`.

- `Numeral.value_ofDecimal`: the numeral of a decimal has its value.
- `exists_value`: the text of every number is read as a number.
- `value_real_of_exact`: the text of a double is read as itself if only one rounding is needed.
- `chars_injective`: different numbers have different texts.
-/

namespace UpdateFeed.Json

open Binary64

namespace Numeral

/-! ## §1 The value of a numeral -/

/-- All digits of a numeral as one number. -/
def significand (numeral : Numeral) : Nat :=
  Nat.ofDigitChars 10 (numeral.whole ++ numeral.fraction?.getD []) 0

/-- The number that an exponent spells. -/
def exponentValue : Option (Bool × List Char) → Int
  | none => 0
  | some (negative, digits) =>
    if negative then -(Nat.ofDigitChars 10 digits 0 : Nat) else Nat.ofDigitChars 10 digits 0

/-- The power of ten of the last digit of a numeral. -/
def power (numeral : Numeral) : Int :=
  exponentValue numeral.exponent? - (numeral.fraction?.getD []).length

/-- The digits of an exponent within the limit are read as their number. -/
theorem readExponent_digits {digits : List Char} {seen before : Nat}
    (h : Nat.ofDigitChars 10 digits before ≤ exponentLimit) :
    readExponent seen before (digits.map digitValue) =
      .ok (Nat.ofDigitChars 10 digits before) := by
  induction digits generalizing seen before with
  | nil => rfl
  | cons c digits ih =>
    have hnext : before * 10 + digitValue c = 10 * before + (c.toNat - '0'.toNat) := by
      rw [Nat.mul_comm]
      rfl
    rw [Nat.ofDigitChars_cons] at h ⊢
    have hfits := Nat.le_trans (le_ofDigitChars digits _) h
    rw [List.map_cons, readExponent, hnext, if_pos hfits, ih h]

/-- What a scaled significand is as a number. -/
def ofScaled (negative : Bool) : Option Binary64 → Except OutOfRange Number
  | some x => .ok (.real negative x)
  | none => .error .atEnd

/-- The value of a literal with a fraction or an exponent, when all digits fit. -/
theorem value_literal {numeral : Numeral} (hdigits : numeral.significand < wordLimit)
    (hpart : numeral.fraction? ≠ none ∨ numeral.exponent? ≠ none)
    (hexponent : (exponentValue numeral.exponent?).natAbs ≤ exponentLimit) (negative : Bool) :
    (numeral.literal negative).value =
      ofScaled negative (scaleByTens numeral.significand numeral.power) := by
  obtain ⟨whole, fraction?, exponent?⟩ := numeral
  have hsignificand : significand ⟨whole, fraction?, exponent?⟩ =
      Nat.ofDigitChars 10 (fraction?.getD []) (Nat.ofDigitChars 10 whole 0) :=
    Nat.ofDigitChars_append 0
  rw [hsignificand] at hdigits ⊢
  have hwhole := gather_digits (Nat.lt_of_le_of_lt (le_ofDigitChars _ _) hdigits)
  have hfraction := gather_digits hdigits
  -- no digit is left over, so the power counts those of the fraction and the exponent
  have hshift : ∀ shift : Int, shift = ((([] : List Nat).length : Int)
      - (((fraction?.getD []).map digitValue).length - ([] : List Nat).length : Nat)) →
      power ⟨whole, fraction?, exponent?⟩ = shift + exponentValue exponent? := by
    rintro shift rfl
    simp [power]
    omega
  cases exponent? with
  | none =>
    cases fraction? with
    | none => exact absurd hpart (by simp)
    | some digits =>
      rw [hshift _ rfl]
      unfold NumberLiteral.value literal
      dsimp only [Option.map, Option.getD] at hfraction ⊢
      rw [hwhole]
      dsimp only
      rw [hfraction]
      simp only [exponentValue, Int.add_zero]
      rfl
  | some exponent =>
    obtain ⟨below, digits⟩ := exponent
    have hread : readExponent 0 0 (digits.map digitValue) =
        .ok (Nat.ofDigitChars 10 digits 0) := by
      refine readExponent_digits ?_
      cases below <;> simpa [exponentValue] using hexponent
    have hsum : ∀ shift : Int, shift + exponentValue (some (below, digits)) =
        if below then shift - Nat.ofDigitChars 10 digits 0
        else shift + Nat.ofDigitChars 10 digits 0 := by
      intro shift
      cases below <;> simp [exponentValue]
      omega
    rw [hshift _ rfl, hsum]
    unfold NumberLiteral.value literal
    cases fraction? with
    | none =>
      dsimp only [Option.map, Option.getD] at hfraction ⊢
      rw [hwhole]
      dsimp only
      rw [hread]
      rfl
    | some digits' =>
      dsimp only [Option.map, Option.getD] at hfraction ⊢
      rw [hwhole]
      dsimp only
      rw [hfraction, hread]
      rfl

/-! ## §2 The numerals of decimals -/

/-- Zeros behind digits multiply their number. -/
theorem ofDigitChars_append_zeros (digits : List Char) (count : Nat) :
    Nat.ofDigitChars 10 (digits ++ List.replicate count '0') 0 =
      Nat.ofDigitChars 10 digits 0 * 10 ^ count := by
  rw [Nat.ofDigitChars_append, Nat.ofDigitChars_replicate_zero, Nat.mul_comm]

/-- Zeros in front of digits do not count. -/
theorem ofDigitChars_zeros_append (digits : List Char) (count : Nat) :
    Nat.ofDigitChars 10 (List.replicate count '0' ++ digits) 0 = Nat.ofDigitChars 10 digits 0 := by
  rw [Nat.ofDigitChars_append, Nat.ofDigitChars_replicate_zero, Nat.mul_zero]

/-- Digits with a point: they count with their power, and zeros that are written out move it. -/
theorem significand_positional (digits : List Char) (exponent : Int) :
    (positional digits exponent).significand =
        Nat.ofDigitChars 10 digits 0 * 10 ^ (exponent + 1).toNat
      ∧ (positional digits exponent).power = min exponent (-1) := by
  cases exponent with
  | ofNat k =>
    constructor
    · show Nat.ofDigitChars 10 (digits ++ List.replicate k '0' ++ ['0']) 0 = _
      rw [List.append_assoc, ← List.replicate_succ', ofDigitChars_append_zeros]
      rfl
    · show (0 : Int) - 1 = min (k : Int) (-1)
      omega
  | negSucc k =>
    have hzero : (Int.negSucc k + 1).toNat = 0 := by omega
    rw [hzero, Nat.pow_zero, Nat.mul_one]
    unfold positional
    dsimp only
    -- the point stands among the digits, or in front of them all with zeros between
    split
    · rename_i hplaces
      constructor
      · show Nat.ofDigitChars 10 (digits.take _ ++ digits.drop _) 0 = _
        rw [List.take_append_drop]
      · show (0 : Int) - ((digits.drop (digits.length - (k + 1))).length : Nat) = _
        rw [List.length_drop]
        omega
    · rename_i hplaces
      constructor
      · show Nat.ofDigitChars 10 (['0'] ++ (List.replicate _ '0' ++ digits)) 0 = _
        rw [← List.append_assoc, ← List.replicate_one, ← List.replicate_add,
          ofDigitChars_zeros_append]
      · show (0 : Int) - ((List.replicate (k + 1 - digits.length) '0' ++ digits).length : Nat) = _
        rw [List.length_append, List.length_replicate]
        omega

/-- Digits with an exponent. -/
theorem significand_scientific {digits : List Char} (hne : digits ≠ []) (power : Int) :
    (scientific digits power).significand = Nat.ofDigitChars 10 digits 0
      ∧ (scientific digits power).power = power - (digits.length - 1 : Nat) := by
  have hlength : 0 < digits.length := List.length_pos_iff.mpr hne
  have hfraction : (scientific digits power).fraction?.getD [] = digits.drop 1 := by
    unfold scientific
    dsimp only
    split
    · exact (List.drop_eq_nil_of_le (by omega)).symm
    · rfl
  -- the power is printed by its size, with the sign in front
  have hexponent : exponentValue (scientific digits power).exponent? = power := by
    show (if decide (power < 0) then -(Nat.ofDigitChars 10 (Nat.toDigits 10 power.natAbs) 0 : Int)
      else (Nat.ofDigitChars 10 (Nat.toDigits 10 power.natAbs) 0 : Int)) = power
    rw [Nat.ofDigitChars_ten_toDigits]
    by_cases hneg : power < 0
    · rw [if_pos (decide_eq_true hneg)]
      omega
    · rw [if_neg (by simpa using hneg)]
      omega
  constructor
  · unfold significand
    rw [hfraction]
    show Nat.ofDigitChars 10 (digits.take 1 ++ digits.drop 1) 0 = _
    rw [List.take_append_drop]
  · unfold Numeral.power
    rw [hfraction, hexponent, List.length_drop]

/-- The digits and the power of the numeral of a decimal: its own, or with zeros written out up to
one behind the point. -/
theorem significand_ofDecimal (layout : DecimalLayout) {d : Decimal} (hd : d.digits ≠ 0) :
    ((ofDecimal layout d).significand = d.digits ∧ (ofDecimal layout d).power = d.exponent)
      ∨ ∃ k : Nat, d.exponent = k ∧ layout.admits (Decimal.length d.digits + d.exponent - 1)
        ∧ (ofDecimal layout d).significand = d.digits * 10 ^ (k + 1)
        ∧ (ofDecimal layout d).power = -1 := by
  have hdigits : Nat.ofDigitChars 10 (Nat.toDigits 10 d.digits) 0 = d.digits :=
    Nat.ofDigitChars_ten_toDigits
  unfold ofDecimal
  dsimp only
  rw [if_neg hd]
  -- a layout with the point in place adds one digit behind a whole number, and no other does
  split
  · rename_i hadmits
    obtain ⟨hsignificand, hpower⟩ := significand_positional (Nat.toDigits 10 d.digits) d.exponent
    rw [hsignificand, hpower, hdigits]
    cases hexponent : d.exponent with
    | ofNat k =>
      refine .inr ⟨k, rfl, ?_, rfl, ?_⟩
      · rwa [hexponent] at hadmits
      · show min (k : Int) (-1) = -1
        omega
    | negSucc k =>
      refine .inl ⟨?_, by omega⟩
      rw [show (Int.negSucc k + 1).toNat = 0 by omega, Nat.pow_zero, Nat.mul_one]
  · obtain ⟨hsignificand, hpower⟩ := significand_scientific
      (Nat.toDigits_ne_nil : Nat.toDigits 10 d.digits ≠ [])
      ((Nat.toDigits 10 d.digits).length + d.exponent - 1)
    refine .inl ⟨hsignificand.trans hdigits, ?_⟩
    have hlength : 0 < (Nat.toDigits 10 d.digits).length := Nat.length_toDigits_pos
    rw [hpower]
    omega

/-- The numeral of a decimal has its value. -/
theorem value_ofDecimal (layout : DecimalLayout) (d : Decimal) :
    ((ofDecimal layout d).significand : ℚ) * 10 ^ (ofDecimal layout d).power = d.toRat := by
  by_cases hd : d.digits = 0
  · have hsignificand : (ofDecimal layout d).significand = 0 := by
      unfold ofDecimal
      dsimp only
      rw [if_pos hd]
      rfl
    rw [hsignificand, Decimal.toRat, hd, Nat.cast_zero, zero_mul, zero_mul]
  · rcases significand_ofDecimal layout hd with ⟨hs, hp⟩ | ⟨k, hk, -, hs, hp⟩
    · rw [hs, hp]
      rfl
    · rw [hs, hp, Decimal.toRat, hk, zpow_natCast, zpow_neg, zpow_one]
      push_cast
      rw [pow_succ, mul_assoc, mul_assoc, mul_inv_cancel₀ (by norm_num), mul_one]

/-- A decimal is written with a point or an exponent. -/
theorem fraction_or_exponent_ofDecimal (layout : DecimalLayout) (d : Decimal) :
    (ofDecimal layout d).fraction? ≠ none ∨ (ofDecimal layout d).exponent? ≠ none := by
  unfold ofDecimal
  dsimp only
  split
  · exact .inl (by simp)
  · split
    · refine .inl ?_
      unfold positional
      split
      · simp
      · dsimp only
        split <;> simp
    · exact .inr (by simp [scientific])

/-- The exponent that is written is less than the digits and the power together. -/
theorem exponentValue_ofDecimal (layout : DecimalLayout) (d : Decimal) :
    (exponentValue (ofDecimal layout d).exponent?).natAbs ≤
      Decimal.length d.digits + d.exponent.natAbs := by
  have hlength : 0 < Decimal.length d.digits := Nat.length_toDigits_pos
  unfold ofDecimal
  dsimp only
  split
  · exact Nat.zero_le _
  · split
    · unfold positional
      split
      · exact Nat.zero_le _
      · dsimp only
        split <;> exact Nat.zero_le _
    · have hpower : ∀ power : Int,
          (exponentValue (scientific (Nat.toDigits 10 d.digits) power).exponent?).natAbs =
            power.natAbs := by
        intro power
        show (if decide (power < 0)
          then -(Nat.ofDigitChars 10 (Nat.toDigits 10 power.natAbs) 0 : Int)
          else (Nat.ofDigitChars 10 (Nat.toDigits 10 power.natAbs) 0 : Int)).natAbs = _
        rw [Nat.ofDigitChars_ten_toDigits]
        split <;> omega
      rw [hpower]
      unfold Decimal.length at hlength ⊢
      omega

end Numeral

/-! ## §3 Doubles that are read back -/

namespace Number

variable {x : Binary64}

/-- The digits of a printed double fit into 64 bits, behind the zeros that are written out too. -/
theorem significand_lt (negative : Bool) (x : Binary64) :
    (real negative x).numeral.significand < wordLimit := by
  show (Numeral.ofDecimal .bounded x.shortest).significand < wordLimit
  by_cases hx : x.isZero = true
  · rw [shortest_zero hx]
    decide
  · obtain ⟨-, hdigits, hbound⟩ := shortest_spec (eq_false_of_ne_true hx)
    unfold wordLimit
    rcases Numeral.significand_ofDecimal .bounded hdigits with ⟨hs, -⟩ | ⟨k, hk, hadmits, hs, -⟩
    · omega
    · -- a number without an exponent has at most 16 digits before the point
      have hlength : Decimal.length x.shortest.digits + k ≤ 16 := by
        have hgreatest :
            (Decimal.length x.shortest.digits : Int) + x.shortest.exponent - 1 ≤ 15 := by
          simp only [DecimalLayout.admits, DecimalLayout.bounded, Option.all_some,
            Bool.and_eq_true, decide_eq_true_eq] at hadmits
          exact hadmits.2
        omega
      obtain ⟨-, hlt, -⟩ := length_spec (Nat.pos_of_ne_zero hdigits)
      rw [hs]
      calc x.shortest.digits * 10 ^ (k + 1)
          < 10 ^ Decimal.length x.shortest.digits * 10 ^ (k + 1) :=
            Nat.mul_lt_mul_of_pos_right hlt (Nat.pow_pos (by decide))
        _ = 10 ^ (Decimal.length x.shortest.digits + (k + 1)) := (Nat.pow_add ..).symm
        _ ≤ 10 ^ 17 := Nat.pow_le_pow_right (by decide) (by omega)
        _ < 18446744073709551616 := by decide

/-- The text of a double is read by scaling its digits. -/
theorem value_real (negative : Bool) (x : Binary64) : (real negative x).literal.value =
    Numeral.ofScaled negative
      (scaleByTens (real negative x).numeral.significand (real negative x).numeral.power) := by
  refine Numeral.value_literal (significand_lt negative x)
    (Numeral.fraction_or_exponent_ofDecimal .bounded x.shortest) ?_ negative
  refine (Numeral.exponentValue_ofDecimal .bounded x.shortest).trans ?_
  unfold exponentLimit
  by_cases hx : x.isZero = true
  · rw [shortest_zero hx]
    decide
  · obtain ⟨-, hdigits, hbound⟩ := shortest_spec (eq_false_of_ne_true hx)
    obtain ⟨hlow, hhigh⟩ := exponent_shortest (eq_false_of_ne_true hx)
    have hlength : Decimal.length x.shortest.digits ≤ 18 :=
      (Nat.length_toDigits_le_iff (by decide) (by decide)).mpr (by omega)
    omega

/-- The text of every number is read as a number. -/
theorem exists_value {number : Number} (h : number.Fits) :
    ∃ value, number.literal.value = .ok value := by
  cases number with
  | integer value => exact ⟨_, value_integer h⟩
  | real negative x =>
    have hscaled : ∃ y, scaleByTens (real negative x).numeral.significand
        (real negative x).numeral.power = some y := by
      show ∃ y, scaleByTens (Numeral.ofDecimal .bounded x.shortest).significand
        (Numeral.ofDecimal .bounded x.shortest).power = some y
      have hlt := significand_lt negative x
      by_cases hx : x.isZero = true
      · rw [shortest_zero hx]
        exact exists_scaleByTens_of_neg (by decide) (by decide)
      · have hx := eq_false_of_ne_true hx
        -- with zeros written out up to the point the digits are scaled down
        rcases Numeral.significand_ofDecimal .bounded (shortest_spec hx).2.1 with
          ⟨hs, hp⟩ | ⟨k, -, -, -, hp⟩
        · rw [hs, hp]
          exact exists_scaleByTens_shortest hx
        · rw [hp]
          exact exists_scaleByTens_of_neg hlt (by decide)
    obtain ⟨y, hy⟩ := hscaled
    exact ⟨.real negative y, by rw [value_real, hy]; rfl⟩

/-- Whether a double is written with digits of 53 bits and a power up to that of `10 ^ 22`. -/
def IsExact (number : Number) : Prop :=
  number.numeral.significand ≤ 2 ^ 53 ∧ number.numeral.power.natAbs ≤ 22

/-- A double that is written with digits and a power that are doubles is read back. -/
theorem value_real_of_exact {negative : Bool} (h : (real negative x).IsExact) :
    (real negative x).literal.value = .ok (.real negative x) := by
  obtain ⟨hdigits, hpower⟩ := h
  rw [value_real]
  have hvalue : ((real negative x).numeral.significand : ℚ)
      * 10 ^ (real negative x).numeral.power = x.shortest.toRat :=
    Numeral.value_ofDecimal .bounded x.shortest
  by_cases hx : x.isZero = true
  · obtain rfl : x = zero := eq_of_isZero hx rfl
    cases negative <;> decide +kernel
  · obtain ⟨hcovers, hne, -⟩ := shortest_spec (eq_false_of_ne_true hx)
    -- a significand of zero would stand for a value that is not zero
    have hpos : 0 < (real negative x).numeral.significand := by
      rcases Nat.eq_zero_or_pos (real negative x).numeral.significand with hzero | hpos
      · rw [hzero, Nat.cast_zero, zero_mul, Decimal.toRat] at hvalue
        have hdigits : (0 : ℚ) < x.shortest.digits := by exact_mod_cast Nat.pos_of_ne_zero hne
        have hproduct : 0 < (x.shortest.digits : ℚ) * 10 ^ x.shortest.exponent := by positivity
        exact absurd hvalue hproduct.ne
      · exact hpos
    rw [← hvalue] at hcovers
    rw [scaleByTens_of_covers hpos hdigits hpower hcovers]
    rfl

end Number

/-! ## §4 Different numbers have different texts -/

/-- Texts that are cut at the same boundary are cut into the same parts. -/
theorem append_inj_of_boundary {good : Char → Bool} {first first' rest rest' : List Char}
    (hfirst : ∀ c ∈ first, good c) (hfirst' : ∀ c ∈ first', good c)
    (hrest : ∀ c ∈ rest.head?, good c = false) (hrest' : ∀ c ∈ rest'.head?, good c = false)
    (h : first ++ rest = first' ++ rest') : first = first' ∧ rest = rest' := by
  obtain ⟨htake, hdrop⟩ := takeWhile_append hfirst hrest
  obtain ⟨htake', hdrop'⟩ := takeWhile_append hfirst' hrest'
  rw [h] at htake hdrop
  exact ⟨htake.symm.trans htake', hdrop.symm.trans hdrop'⟩

namespace Numeral

theorem exponentChars_injective {exponent? exponent?' : Option (Bool × List Char)}
    (h : exponentChars exponent? = exponentChars exponent?') : exponent? = exponent?' := by
  cases exponent? with
  | none =>
    cases exponent?' with
    | none => rfl
    | some exponent' => cases h
  | some exponent =>
    cases exponent?' with
    | none => cases h
    | some exponent' =>
      obtain ⟨negative, digits⟩ := exponent
      obtain ⟨negative', digits'⟩ := exponent'
      obtain ⟨hsign, rfl⟩ := List.cons.inj (List.cons.inj h).2
      cases negative <;> cases negative' <;> first | rfl | cases hsign

/-- A proper numeral is found again from its text. -/
theorem chars_injective {numeral numeral' : Numeral} (hproper : numeral.IsProper)
    (hproper' : numeral'.IsProper) (h : numeral.chars = numeral'.chars) : numeral = numeral' := by
  obtain ⟨whole, fraction?, exponent?⟩ := numeral
  obtain ⟨whole', fraction?', exponent?'⟩ := numeral'
  have hend : EndsNumber [] := by simp [EndsNumber]
  have hends : ∀ fraction? exponent?,
      EndsDigits (fractionChars fraction? ++ exponentChars exponent?) := by
    intro fraction? exponent?
    simpa using endsDigits_fractionChars fraction? exponent? hend
  have hhead : ∀ exponent?, ∀ c ∈ (exponentChars exponent?).head?, c.isDigit = false ∧ c ≠ '.' := by
    intro exponent?
    simpa using head_exponentChars exponent? hend
  obtain ⟨rfl, hparts⟩ := append_inj_of_boundary hproper.whole hproper'.whole
    (hends fraction? exponent?) (hends fraction?' exponent?') h
  -- an exponent does not start with a point
  have hpoint : ∀ exponent? rest, exponentChars exponent? ≠ '.' :: rest := by
    intro exponent? rest heq
    exact (hhead exponent? '.' (by rw [heq]; rfl)).2 rfl
  cases fraction? with
  | none =>
    cases fraction?' with
    | none => rw [exponentChars_injective hparts]
    | some digits' => exact absurd hparts (hpoint _ _)
  | some digits =>
    cases fraction?' with
    | none => exact absurd hparts.symm (hpoint _ _)
    | some digits' =>
      obtain ⟨rfl, hexponents⟩ := append_inj_of_boundary (hproper.fraction _ rfl).2
        (hproper'.fraction _ rfl).2 (fun c hc => (hhead exponent? c hc).1)
        (fun c hc => (hhead exponent?' c hc).1) (List.cons.inj hparts).2
      rw [exponentChars_injective hexponents]

end Numeral

/-- A number is found again from its sign and its numeral. -/
theorem signed_injective {negative negative' : Bool} {numeral numeral' : Numeral}
    (hproper : numeral.IsProper) (hproper' : numeral'.IsProper)
    (h : signed negative numeral = signed negative' numeral') :
    negative = negative' ∧ numeral = numeral' := by
  -- no numeral starts with a sign
  have hsign : ∀ {numeral : Numeral}, numeral.IsProper → ∀ rest, numeral.chars ≠ '-' :: rest := by
    intro numeral hproper rest heq
    obtain ⟨c, digits, hwhole⟩ := List.exists_cons_of_ne_nil hproper.whole_ne_nil
    have hdigit := hproper.whole c (by rw [hwhole]; exact List.mem_cons_self)
    rw [Numeral.chars, hwhole] at heq
    rw [(List.cons.inj heq).1] at hdigit
    exact absurd hdigit (by decide)
  cases negative with
  | true =>
    cases negative' with
    | true => exact ⟨rfl, Numeral.chars_injective hproper hproper' (List.cons.inj h).2⟩
    | false => exact absurd h.symm (hsign hproper' _)
  | false =>
    cases negative' with
    | true => exact absurd h (hsign hproper _)
    | false => exact ⟨rfl, Numeral.chars_injective hproper hproper' h⟩

namespace Number

/-- Different numbers have different texts. -/
theorem chars_injective {number number' : Number} (h : number.chars = number'.chars) :
    number = number' := by
  rw [chars_eq, chars_eq] at h
  obtain ⟨hsign, hnumeral⟩ :=
    signed_injective number.isProper_numeral number'.isProper_numeral h
  -- only doubles have a point or an exponent
  have hkind : ∀ n x, Numeral.natural n ≠ Numeral.ofDecimal .bounded (shortest x) := by
    intro n x heq
    have hparts := Numeral.fraction_or_exponent_ofDecimal .bounded (shortest x)
    rw [← heq] at hparts
    simp [Numeral.natural] at hparts
  cases number with
  | integer value =>
    cases number' with
    | integer value' =>
      have hvalue : value.natAbs = value'.natAbs := by
        have hdigits : Nat.toDigits 10 value.natAbs = Nat.toDigits 10 value'.natAbs :=
          congrArg Numeral.whole hnumeral
        rw [← Nat.ofDigitChars_ten_toDigits (n := value.natAbs), hdigits,
          Nat.ofDigitChars_ten_toDigits]
      have hneg : value < 0 ↔ value' < 0 := by simpa [isNegative] using hsign
      congr 1
      omega
    | real negative' x' => exact absurd hnumeral (hkind _ x')
  | real negative x =>
    cases number' with
    | integer value' => exact absurd hnumeral.symm (hkind _ x)
    | real negative' x' =>
      have hvalue : x.shortest.toRat = x'.shortest.toRat := by
        have hnumeral : Numeral.ofDecimal .bounded x.shortest =
            Numeral.ofDecimal .bounded x'.shortest := hnumeral
        rw [← Numeral.value_ofDecimal .bounded, hnumeral, Numeral.value_ofDecimal]
      obtain rfl := eq_of_toRat_shortest hvalue
      obtain rfl : negative = negative' := hsign
      rfl

end Number

end UpdateFeed.Json
