import UpdateFeed.Proofs.Json.Numerals

/-!
# The text of numbers

The text of every number is a proper numeral behind its sign.  So it is read to its end, and what
it gives is the value of its literal.

- `Number.chars_eq`, `Number.isProper_numeral`: the text of a number is that of its numeral.
- `readValue_number`: the text of a number is read as the value of its literal.
- `value_integer`: for a whole number that is the number itself.
-/

namespace UpdateFeed.Json

/-! ## §1 Decimals -/

namespace Numeral

/-- Digits with a point, as `DecimalLayout.setPositional` sets them. -/
def positional (digits : List Char) (exponent : Int) : Numeral :=
  match exponent with
  | .ofNat k => ⟨digits ++ List.replicate k '0', some ['0'], none⟩
  | .negSucc k =>
    let places := k + 1
    if places < digits.length then
      ⟨digits.take (digits.length - places), some (digits.drop (digits.length - places)), none⟩
    else ⟨['0'], some (List.replicate (places - digits.length) '0' ++ digits), none⟩

/-- Digits with an exponent, as `DecimalLayout.setScientific` sets them. -/
def scientific (digits : List Char) (power : Int) : Numeral :=
  ⟨digits.take 1, if digits.length ≤ 1 then none else some (digits.drop 1),
    some (decide (power < 0), Nat.toDigits 10 power.natAbs)⟩

/-- The numeral of a decimal in a layout. -/
def ofDecimal (layout : DecimalLayout) (d : Decimal) : Numeral :=
  let digits := Nat.toDigits 10 d.digits
  let power := (digits.length : Int) + d.exponent - 1
  if d.digits = 0 then ⟨['0'], some ['0'], none⟩
  else if layout.admits power then positional digits d.exponent
  else scientific digits power

theorem chars_positional (digits : List Char) (exponent : Int) :
    (positional digits exponent).chars = DecimalLayout.setPositional digits exponent := by
  cases exponent with
  | ofNat k =>
    show (digits ++ List.replicate k '0') ++ ['.', '0'] = _
    rfl
  | negSucc k =>
    simp only [positional, DecimalLayout.setPositional]
    split
    · simp [chars, fractionChars, exponentChars]
    · simp [chars, fractionChars, exponentChars]

theorem chars_scientific (digits : List Char) (power : Int) :
    (scientific digits power).chars = DecimalLayout.setScientific digits power := by
  have hsign : (if decide (power < 0) then '-' else '+') = if power < 0 then '-' else '+' := by
    simp
  unfold scientific DecimalLayout.setScientific chars exponentChars
  dsimp only
  rw [hsign]
  match digits with
  | [] => rfl
  | [d] => rfl
  | d :: other :: others => simp [fractionChars]

/-- The text of a decimal is that of its numeral. -/
theorem chars_ofDecimal (layout : DecimalLayout) (d : Decimal) :
    (ofDecimal layout d).chars = layout.render d := by
  unfold ofDecimal DecimalLayout.render
  dsimp only
  split
  · rfl
  · split
    · exact chars_positional _ _
    · exact chars_scientific _ _

/-- Digits as they are written for a number above zero. -/
structure IsLeading (digits : List Char) : Prop where
  isDigit : ∀ c ∈ digits, c.isDigit
  ne_nil : digits ≠ []
  head : digits.head? ≠ some '0'

theorem isLeading_toDigits {n : Nat} (h : n ≠ 0) : IsLeading (Nat.toDigits 10 n) where
  isDigit _ hc := Nat.isDigit_of_mem_toDigits (by decide) (by decide) hc
  ne_nil := Nat.toDigits_ne_nil
  head hzero := by
    have hvalue : Nat.ofDigitChars 10 (Nat.toDigits 10 n) 0 = n := Nat.ofDigitChars_ten_toDigits
    rw [toDigits_zero_of_head hzero] at hvalue
    exact h hvalue.symm

theorem isDigit_of_mem_replicate {count : Nat} {c : Char} (h : c ∈ List.replicate count '0') :
    c.isDigit := by
  rw [List.eq_of_mem_replicate h]
  rfl

theorem isProper_positional {digits : List Char} (h : IsLeading digits) (exponent : Int) :
    (positional digits exponent).IsProper := by
  obtain ⟨first, others, rfl⟩ := List.exists_cons_of_ne_nil h.ne_nil
  cases exponent with
  | ofNat k =>
    refine ⟨?_, by simp [positional], ?_, by simp [positional], by simp [positional]⟩
    · intro c hc
      rcases List.mem_append.mp hc with hc | hc
      · exact h.isDigit c hc
      · exact isDigit_of_mem_replicate hc
    · intro hzero
      exact absurd hzero h.head
  | negSucc k =>
    unfold positional
    dsimp only
    split
    · rename_i hplaces
      -- the point stands between two of the digits
      have hcut : 0 < (first :: others).length - (k + 1) := by omega
      refine ⟨fun c hc => h.isDigit c (List.mem_of_mem_take hc), ?_, ?_, ?_, by simp⟩
      · intro hnone
        rcases List.take_eq_nil_iff.mp hnone with hnone | hnone
        · omega
        · cases hnone
      · intro hzero
        rw [List.head?_take, if_neg (by omega)] at hzero
        exact absurd hzero h.head
      · intro digits hdigits
        obtain rfl := Option.some.inj hdigits
        refine ⟨?_, fun c hc => h.isDigit c (List.mem_of_mem_drop hc)⟩
        rw [ne_eq, List.drop_eq_nil_iff]
        omega
    · refine ⟨by simp, by simp, fun _ => rfl, ?_, by simp⟩
      intro digits hdigits
      obtain rfl := Option.some.inj hdigits
      refine ⟨by simp, fun c hc => ?_⟩
      rcases List.mem_append.mp hc with hc | hc
      · exact isDigit_of_mem_replicate hc
      · exact h.isDigit c hc

theorem isProper_scientific {digits : List Char} (h : IsLeading digits) (power : Int) :
    (scientific digits power).IsProper := by
  obtain ⟨first, others, rfl⟩ := List.exists_cons_of_ne_nil h.ne_nil
  refine ⟨fun c hc => h.isDigit c (List.mem_of_mem_take hc), by simp [scientific], ?_, ?_, ?_⟩
  · intro hzero
    exact absurd hzero h.head
  · intro digits hdigits
    unfold scientific at hdigits
    dsimp only at hdigits
    split at hdigits
    · cases hdigits
    · rename_i hlength
      obtain rfl := Option.some.inj hdigits
      refine ⟨?_, fun c hc => h.isDigit c (List.mem_of_mem_drop hc)⟩
      rw [ne_eq, List.drop_eq_nil_iff]
      omega
  · intro exponent hexponent
    obtain rfl := Option.some.inj hexponent
    exact ⟨Nat.toDigits_ne_nil, fun c hc =>
      Nat.isDigit_of_mem_toDigits (by decide) (by decide) hc⟩

/-- The numeral of a decimal is a proper one. -/
theorem isProper_ofDecimal (layout : DecimalLayout) (d : Decimal) :
    (ofDecimal layout d).IsProper := by
  unfold ofDecimal
  dsimp only
  split
  · exact ⟨by simp, by simp, fun _ => rfl, by simp, by simp⟩
  · rename_i hdigits
    have hleading := isLeading_toDigits hdigits
    split
    · exact isProper_positional hleading _
    · exact isProper_scientific hleading _

end Numeral

/-! ## §2 Numbers -/

namespace Number

/-- Whether a number has a sign. -/
def isNegative : Number → Bool
  | .integer value => value < 0
  | .real negative _ => negative

/-- The numeral of a number without its sign. -/
def numeral : Number → Numeral
  | .integer value => .natural value.natAbs
  | .real _ magnitude => .ofDecimal .bounded magnitude.shortest

/-- The text of a number is its numeral behind its sign. -/
theorem chars_eq (number : Number) : number.chars = signed number.isNegative number.numeral := by
  cases number with
  | integer value =>
    unfold chars signed numeral isNegative Numeral.chars Numeral.natural Numeral.fractionChars
      Numeral.exponentChars
    by_cases hneg : value < 0 <;> simp [hneg]
  | real negative magnitude =>
    unfold chars signed numeral isNegative
    rw [Numeral.chars_ofDecimal]

theorem isProper_numeral (number : Number) : number.numeral.IsProper := by
  cases number with
  | integer value => exact Numeral.isProper_natural _
  | real negative magnitude => exact Numeral.isProper_ofDecimal _ _

theorem isNumberChar_of_mem_chars {number : Number} : ∀ c ∈ number.chars, isNumberChar c := by
  rw [chars_eq]
  exact isNumberChar_of_mem_signed number.isProper_numeral

/-- The literal that the text of a number is. -/
def literal (number : Number) : NumberLiteral :=
  number.numeral.literal number.isNegative

end Number

/-- The text of a number is read as the value of its literal, whatever follows it. -/
theorem readValue_number {number value : Number} (h : number.literal.value = .ok value)
    (depth : Nat) {rest : List Char} (hrest : EndsNumber rest) :
    readValue depth (number.chars ++ rest) = .ok (.number value, rest) := by
  rw [number.chars_eq]
  exact readValue_signed number.isProper_numeral h depth hrest

/-- A whole number that fits is the value of its literal. -/
theorem value_integer {value : Int} (h : (Number.integer value).Fits) :
    (Number.integer value).literal.value = .ok (.integer value) := by
  obtain ⟨hlow, hhigh⟩ := h
  have hlimit : wordLimit = 2 * negativeLimit := rfl
  -- the sign and the size make the integer again, zero being written without a sign
  have hnumber : wholeNumber (decide (value < 0)) value.natAbs = .integer value := by
    unfold wholeNumber
    by_cases hneg : value < 0
    · have hcut : ¬ (value.natAbs = 0 ∨ negativeLimit < value.natAbs) := by omega
      simp only [hneg, decide_true, Bool.not_true, Bool.false_eq_true, if_false, if_neg hcut]
      congr 1
      omega
    · simp only [hneg, decide_false, Bool.not_false, if_true]
      congr 1
      omega
  have hvalue := value_natural (n := value.natAbs) (by omega) (decide (value < 0))
  rw [hnumber] at hvalue
  exact hvalue

end UpdateFeed.Json
