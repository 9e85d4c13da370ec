import UpdateFeed.Proofs.Json.Forms

/-!
# Reading numerals

A numeral is the text of a number without its sign, cut into its digits before the point, those
behind it, and the exponent.  A proper numeral is read to its end, and gives the value of the
literal with these digits.

- `readNumber_numeral`: reading a proper numeral, whatever follows it.
- `gather_digits`: digits whose number fits are gathered into that number.
- `readValue_signed`: the same as a value, behind its sign.
-/

namespace UpdateFeed.Json

/-! ## §1 Digits -/

/-- Whether what follows a number does not continue it. -/
def EndsNumber (rest : List Char) : Prop :=
  ∀ c ∈ rest.head?, c.isDigit = false ∧ c ≠ '.' ∧ c ≠ 'e' ∧ c ≠ 'E'

/-- Whether what follows digits does not continue them. -/
def EndsDigits (rest : List Char) : Prop :=
  ∀ c ∈ rest.head?, c.isDigit = false

theorem EndsNumber.endsDigits {rest : List Char} (h : EndsNumber rest) : EndsDigits rest :=
  fun c hc => (h c hc).1

/-- The start of a text that a predicate holds of, up to where it does not. -/
theorem takeWhile_append {good : Char → Bool} {first rest : List Char}
    (hfirst : ∀ c ∈ first, good c) (hrest : ∀ c ∈ rest.head?, good c = false) :
    (first ++ rest).takeWhile good = first ∧ (first ++ rest).dropWhile good = rest := by
  have hnone : rest.takeWhile good = [] ∧ rest.dropWhile good = rest := by
    cases rest with
    | nil => exact ⟨rfl, rfl⟩
    | cons c rest => simp [hrest c rfl]
  rw [List.takeWhile_append_of_pos hfirst, List.dropWhile_append_of_pos hfirst, hnone.1, hnone.2,
    List.append_nil]
  exact ⟨rfl, rfl⟩

/-- Digits are read up to what does not continue them. -/
theorem readDigits_append {digits rest : List Char} (hdigits : ∀ c ∈ digits, c.isDigit)
    (hrest : EndsDigits rest) :
    readDigits (digits ++ rest) = (digits.map digitValue, rest) := by
  obtain ⟨htake, hdrop⟩ := takeWhile_append hdigits hrest
  unfold readDigits
  rw [htake, hdrop]

/-! ## §2 Numerals -/

/-- The text of a number without its sign: its digits before the point, those behind it if there is
a point, and whether the exponent is negative and its digits if there is one. -/
structure Numeral where
  whole : List Char
  fraction? : Option (List Char)
  exponent? : Option (Bool × List Char)

namespace Numeral

/-- The digits behind a point. -/
def fractionChars : Option (List Char) → List Char
  | none => []
  | some digits => '.' :: digits

/-- An exponent with its sign. -/
def exponentChars : Option (Bool × List Char) → List Char
  | none => []
  | some (negative, digits) => 'e' :: (if negative then '-' else '+') :: digits

/-- The text of a numeral. -/
def chars (numeral : Numeral) : List Char :=
  numeral.whole ++ (fractionChars numeral.fraction? ++ exponentChars numeral.exponent?)

/-- The literal that a numeral is read as, behind its sign. -/
def literal (negative : Bool) (numeral : Numeral) : NumberLiteral :=
  ⟨negative, numeral.whole.map digitValue, numeral.fraction?.map (·.map digitValue),
    numeral.exponent?.map fun exponent => (exponent.1, exponent.2.map digitValue)⟩

/-- A numeral as documents may have it: there are digits wherever they are expected, and no zero in
front of others. -/
structure IsProper (numeral : Numeral) : Prop where
  whole : ∀ c ∈ numeral.whole, c.isDigit
  whole_ne_nil : numeral.whole ≠ []
  whole_zero : numeral.whole.head? = some '0' → numeral.whole = ['0']
  fraction : ∀ digits ∈ numeral.fraction?, digits ≠ [] ∧ ∀ c ∈ digits, c.isDigit
  exponent : ∀ exponent ∈ numeral.exponent?, exponent.2 ≠ [] ∧ ∀ c ∈ exponent.2, c.isDigit

/-- Neither an exponent nor what follows it continues the digits before it. -/
theorem head_exponentChars (exponent? : Option (Bool × List Char)) {rest : List Char}
    (hrest : EndsNumber rest) :
    ∀ c ∈ (exponentChars exponent? ++ rest).head?, c.isDigit = false ∧ c ≠ '.' := by
  cases exponent? with
  | none => exact fun c hc => ⟨(hrest c hc).1, (hrest c hc).2.1⟩
  | some exponent =>
    intro c hc
    obtain rfl : 'e' = c := by simpa [exponentChars] using hc
    decide

/-- Nor does a fraction. -/
theorem endsDigits_fractionChars (fraction? : Option (List Char))
    (exponent? : Option (Bool × List Char)) {rest : List Char} (hrest : EndsNumber rest) :
    EndsDigits (fractionChars fraction? ++ (exponentChars exponent? ++ rest)) := by
  cases fraction? with
  | none => exact fun c hc => (head_exponentChars exponent? hrest c hc).1
  | some digits =>
    intro c hc
    obtain rfl : '.' = c := by simpa [fractionChars] using hc
    decide

end Numeral

theorem readWhole_append {digits rest : List Char} (hdigits : ∀ c ∈ digits, c.isDigit)
    (hne : digits ≠ []) (hzero : digits.head? = some '0' → digits = ['0'])
    (hrest : EndsDigits rest) :
    readWhole (digits ++ rest) = .ok (digits.map digitValue, rest) := by
  cases digits with
  | nil => exact absurd rfl hne
  | cons c digits =>
    by_cases hc : c = '0'
    · -- a zero stands alone, and no digit follows it
      subst hc
      obtain rfl : digits = [] := by simpa using hzero rfl
      cases rest with
      | nil => rfl
      | cons c rest =>
        show (if c.isDigit then failAfter .badNumber (c :: rest) else .ok ([0], c :: rest)) = _
        rw [hrest c rfl]
        rfl
    · have hdigit : c.isDigit = true := hdigits c List.mem_cons_self
      rw [List.cons_append, readWhole]
      · rw [if_pos hdigit, ← List.cons_append, readDigits_append hdigits hrest]
      · exact hc

theorem readFraction_append {fraction? : Option (List Char)} {rest : List Char}
    (hfraction : ∀ digits ∈ fraction?, digits ≠ [] ∧ ∀ c ∈ digits, c.isDigit)
    (hrest : EndsDigits rest) (hpoint : ∀ c ∈ rest.head?, c ≠ '.') :
    readFraction (Numeral.fractionChars fraction? ++ rest) =
      .ok (fraction?.map (·.map digitValue), rest) := by
  cases fraction? with
  | none =>
    cases rest with
    | nil => rfl
    | cons c rest =>
      rw [show Numeral.fractionChars none ++ c :: rest = c :: rest from rfl, readFraction]
      · rfl
      · intro other heq
        exact hpoint c rfl (List.cons.inj heq).1
  | some digits =>
    obtain ⟨hne, hdigits⟩ := hfraction digits rfl
    show readFraction ('.' :: (digits ++ rest)) = _
    rw [readFraction, readDigits_append hdigits hrest]
    cases digits with
    | nil => exact absurd rfl hne
    | cons c digits => rfl

theorem readExponentPart_append {exponent? : Option (Bool × List Char)} {rest : List Char}
    (hexponent : ∀ exponent ∈ exponent?, exponent.2 ≠ [] ∧ ∀ c ∈ exponent.2, c.isDigit)
    (hrest : EndsNumber rest) :
    ∃ digitsText, readExponentPart (Numeral.exponentChars exponent? ++ rest) =
      .ok ((exponent?.map fun exponent => (exponent.1, exponent.2.map digitValue), digitsText),
        rest) := by
  cases exponent? with
  | none =>
    cases rest with
    | nil => exact ⟨[], rfl⟩
    | cons c rest =>
      -- what follows must not be taken for an exponent
      obtain ⟨-, -, hsmall, hlarge⟩ := hrest c rfl
      refine ⟨[], ?_⟩
      show (if c = 'e' ∨ c = 'E' then _ else _) = _
      rw [if_neg (not_or.mpr ⟨hsmall, hlarge⟩)]
      rfl
  | some exponent =>
    obtain ⟨negative, digits⟩ := exponent
    obtain ⟨hne, hdigits⟩ := hexponent _ rfl
    have hsign : readSign ((if negative then '-' else '+') :: (digits ++ rest)) =
        (negative, digits ++ rest) := by
      cases negative <;> rfl
    refine ⟨digits ++ rest, ?_⟩
    show readExponentPart ('e' :: (if negative then '-' else '+') :: (digits ++ rest)) = _
    rw [readExponentPart, if_pos (.inl rfl), hsign]
    dsimp only
    rw [readDigits_append hdigits hrest.endsDigits]
    cases digits with
    | nil => exact absurd rfl hne
    | cons c digits => rfl

/-- A proper numeral is read as its literal. -/
theorem readNumber_numeral {numeral : Numeral} (hproper : numeral.IsProper) {negative : Bool}
    {value : Number} (hvalue : (numeral.literal negative).value = .ok value) {rest : List Char}
    (hrest : EndsNumber rest) :
    readNumber negative (numeral.chars ++ rest) = .ok (value, rest) := by
  have hlast := Numeral.head_exponentChars numeral.exponent? hrest
  have hwhole := readWhole_append hproper.whole hproper.whole_ne_nil hproper.whole_zero
    (Numeral.endsDigits_fractionChars numeral.fraction? numeral.exponent? hrest)
  have hfraction := readFraction_append hproper.fraction (fun c hc => (hlast c hc).1)
    (fun c hc => (hlast c hc).2)
  obtain ⟨digitsText, hexponent⟩ := readExponentPart_append hproper.exponent hrest
  -- each part is read up to where the next one starts
  unfold readNumber Numeral.chars
  rw [List.append_assoc, List.append_assoc, hwhole, ok_bind]
  dsimp only
  rw [hfraction, ok_bind]
  dsimp only
  rw [hexponent, ok_bind]
  dsimp only
  rw [show NumberLiteral.mk negative _ _ _ = numeral.literal negative from rfl, hvalue]

/-! ## §3 Whole numbers -/

/-- Digits count for no less than what was before them. -/
theorem le_ofDigitChars (digits : List Char) (before : Nat) :
    before ≤ Nat.ofDigitChars 10 digits before := by
  rw [Nat.ofDigitChars_eq_ofDigitChars_zero]
  have hpow : 1 ≤ 10 ^ digits.length := Nat.pow_pos (by decide)
  calc before = 1 * before := (Nat.one_mul before).symm
    _ ≤ 10 ^ digits.length * before := Nat.mul_le_mul_right before hpow
    _ ≤ _ := Nat.le_add_right _ _

/-- Digits are gathered into their number if it fits. -/
theorem gather_digits {digits : List Char} {before : Nat}
    (h : Nat.ofDigitChars 10 digits before < wordLimit) :
    gather before (digits.map digitValue) = (Nat.ofDigitChars 10 digits before, []) := by
  induction digits generalizing before with
  | nil => rfl
  | cons c digits ih =>
    have hnext : before * 10 + digitValue c = 10 * before + (c.toNat - '0'.toNat) := by
      rw [Nat.mul_comm]
      rfl
    rw [Nat.ofDigitChars_cons] at h ⊢
    have hfits := Nat.lt_of_le_of_lt (le_ofDigitChars digits _) h
    rw [List.map_cons, gather, hnext, if_pos hfits, ih h]

/-- The digits of a number start with a zero only when it is zero. -/
theorem toDigits_zero_of_head {n : Nat} (h : (Nat.toDigits 10 n).head? = some '0') :
    Nat.toDigits 10 n = ['0'] := by
  induction n using Nat.strongRecOn with
  | ind n ih =>
    by_cases hsmall : n < 10
    · rw [Nat.toDigits_of_lt_base hsmall] at h ⊢
      rw [Option.some.inj h]
    · -- otherwise the leading digit is that of a tenth of it, which is not zero
      rw [Nat.toDigits_of_base_le (by decide) (Nat.le_of_not_lt hsmall)] at h
      have hhead : (Nat.toDigits 10 (n / 10)).head? = some '0' := by
        cases hdigits : Nat.toDigits 10 (n / 10) with
        | nil => exact absurd hdigits Nat.toDigits_ne_nil
        | cons c digits => simpa [hdigits] using h
      have hvalue : Nat.ofDigitChars 10 (Nat.toDigits 10 (n / 10)) 0 = n / 10 :=
        Nat.ofDigitChars_ten_toDigits
      rw [ih (n / 10) (by omega) hhead] at hvalue
      have hzero : n / 10 = 0 := hvalue.symm
      omega

/-- The digits of a natural number as a numeral. -/
def Numeral.natural (n : Nat) : Numeral := ⟨Nat.toDigits 10 n, none, none⟩

theorem Numeral.isProper_natural (n : Nat) : (Numeral.natural n).IsProper where
  whole _ hc := Nat.isDigit_of_mem_toDigits (by decide) (by decide) hc
  whole_ne_nil := Nat.toDigits_ne_nil
  whole_zero := toDigits_zero_of_head
  fraction := by simp [natural]
  exponent := by simp [natural]

theorem value_natural {n : Nat} (h : n < wordLimit) (negative : Bool) :
    ((Numeral.natural n).literal negative).value = .ok (wholeNumber negative n) := by
  have hvalue : Nat.ofDigitChars 10 (Nat.toDigits 10 n) 0 = n := Nat.ofDigitChars_ten_toDigits
  have hfits : Nat.ofDigitChars 10 (Nat.toDigits 10 n) 0 < wordLimit := by rwa [hvalue]
  unfold NumberLiteral.value Numeral.literal Numeral.natural
  dsimp only [Option.map_none]
  rw [gather_digits hfits, hvalue]

/-! ## §4 Numbers as values -/

/-- A text that is read as it is has no blank at its start. -/
theorem skipBlanks_cons {c : Char} (h : isBlank c = false) (rest : List Char) :
    skipBlanks (c :: rest) = c :: rest := by
  simp [skipBlanks, h]

/-- A value that starts with a digit is a number. -/
theorem readValue_digit {c : Char} (h : c.isDigit) (depth : Nat) (rest : List Char) :
    readValue depth (c :: rest) =
      (readNumber false (c :: rest)).map fun (value, rest) => (.number value, rest) := by
  have hblank : isBlank c = false := by
    by_contra hblank
    simp only [isBlank, Bool.not_eq_false, Bool.or_eq_true, decide_eq_true_eq] at hblank
    rcases hblank with ((rfl | rfl) | rfl) | rfl <;> simp at h
  unfold readValue
  rw [skipBlanks_cons hblank]
  -- none of the signs and letters that other values start with is a digit
  split
  case h_9 other rest' _ _ _ _ _ _ _ heq =>
    obtain ⟨rfl, rfl⟩ := List.cons.inj heq
    rw [if_pos h]
  all_goals simp_all

/-- The text of a number with its sign. -/
def signed (negative : Bool) (numeral : Numeral) : List Char :=
  (if negative then ['-'] else []) ++ numeral.chars

/-- A proper numeral with its sign is read as a value, whatever follows it. -/
theorem readValue_signed {numeral : Numeral} (hproper : numeral.IsProper) {negative : Bool}
    {value : Number} (hvalue : (numeral.literal negative).value = .ok value) (depth : Nat)
    {rest : List Char} (hrest : EndsNumber rest) :
    readValue depth (signed negative numeral ++ rest) = .ok (.number value, rest) := by
  have hread := readNumber_numeral hproper hvalue hrest
  cases negative with
  | true =>
    show readValue depth ('-' :: (numeral.chars ++ rest)) = _
    unfold readValue
    rw [skipBlanks_cons rfl]
    show (readNumber true (numeral.chars ++ rest)).map _ = _
    rw [hread]
    rfl
  | false =>
    show readValue depth (numeral.chars ++ rest) = _
    cases hwhole : numeral.whole with
    | nil => exact absurd hwhole hproper.whole_ne_nil
    | cons c digits =>
      have hdigit : c.isDigit := hproper.whole c (by rw [hwhole]; exact List.mem_cons_self)
      have hchars : ∃ others, numeral.chars ++ rest = c :: others := by
        unfold Numeral.chars
        rw [hwhole]
        exact ⟨_, rfl⟩
      -- the first digit tells the reader that a number follows
      obtain ⟨others, hchars⟩ := hchars
      rw [hchars] at hread ⊢
      rw [readValue_digit hdigit, hread]
      rfl

/-- Whether a number may have a character in its text. -/
def isNumberChar (c : Char) : Bool :=
  c.isDigit || c = '.' || c = 'e' || c = '+' || c = '-'

/-- The text of a number has characters of numbers only. -/
theorem isNumberChar_of_mem_signed {numeral : Numeral} (hproper : numeral.IsProper)
    {negative : Bool} : ∀ c ∈ signed negative numeral, isNumberChar c := by
  have hdigit : ∀ c : Char, c.isDigit → isNumberChar c := fun c hc => by simp [isNumberChar, hc]
  have hfraction : ∀ c ∈ Numeral.fractionChars numeral.fraction?, isNumberChar c := by
    cases hpart : numeral.fraction? with
    | none => simp [Numeral.fractionChars]
    | some digits =>
      intro c hc
      rcases List.mem_cons.mp hc with rfl | hc
      · rfl
      · exact hdigit c ((hproper.fraction digits hpart).2 c hc)
  have hexponent : ∀ c ∈ Numeral.exponentChars numeral.exponent?, isNumberChar c := by
    cases hpart : numeral.exponent? with
    | none => simp [Numeral.exponentChars]
    | some exponent =>
      obtain ⟨below, digits⟩ := exponent
      intro c hc
      rcases List.mem_cons.mp hc with rfl | hc
      · rfl
      · rcases List.mem_cons.mp hc with rfl | hc
        · cases below <;> rfl
        · exact hdigit c ((hproper.exponent _ hpart).2 c hc)
  intro c hc
  rcases List.mem_append.mp hc with hc | hc
  · cases negative
    · simp at hc
    · obtain rfl : c = '-' := by simpa using hc
      rfl
  · rcases List.mem_append.mp hc with hc | hc
    · exact hdigit c (hproper.whole c hc)
    · rcases List.mem_append.mp hc with hc | hc
      · exact hfraction c hc
      · exact hexponent c hc

end UpdateFeed.Json
