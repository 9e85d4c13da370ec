import UpdateFeed.Json.Printer
import UpdateFeed.Json.Reader

/-!
# Reading back printed strings

A string is printed between quotes, with an escape for each character that may not stand there.
Read back, it is the same string, whatever follows it.

- `readText_escape`: the character that was escaped is the first one that is read.
- `readText_escaped`: the characters of a printed string, up to its closing quote.
-/

namespace UpdateFeed.Json

/-! ## §1 Escapes -/

/-- The digit that is printed for a value is read as that value. -/
theorem hexValue?_hexDigit {value : Nat} (h : value < 16) :
    hexValue? (hexDigit value) = some value := by
  have hall : ∀ value < 16, hexValue? (hexDigit value) = some value := by decide
  exact hall value h

/-- A control character is the unit that its long escape spells. -/
theorem hexUnit?_control {c : Char} (h : c.toNat < 0x20) :
    hexUnit? '0' '0' (hexDigit (c.toNat / 16)) (hexDigit (c.toNat % 16)) = some c.toNat := by
  have hhigh := hexValue?_hexDigit (show c.toNat / 16 < 16 by omega)
  have hlow := hexValue?_hexDigit (show c.toNat % 16 < 16 by omega)
  have hzero : hexValue? '0' = some 0 := rfl
  have hvalue : ((0 * 16 + 0) * 16 + c.toNat / 16) * 16 + c.toNat % 16 = c.toNat := by omega
  unfold hexUnit?
  rw [hzero, hhigh, hlow]
  show some _ = some _
  rw [hvalue]

/-- A character that stands for itself is read as it is. -/
theorem readText_plain {c : Char} (hquote : c ≠ '"') (hbackslash : c ≠ '\\')
    (hcontrol : ¬ c.toNat < 0x20) (rest : List Char) :
    readText (c :: rest) = consText c (readText rest) := by
  rw [readText.eq_def]
  split
  case h_7 other rest' hquote' hbackslash' heq =>
    obtain ⟨rfl, rfl⟩ := List.cons.inj heq
    rw [if_neg hcontrol]
  all_goals simp_all

/-- The long escape of a control character is read as that character. -/
theorem readText_control {c : Char} (h : c.toNat < 0x20) (rest : List Char) :
    readText ('\\' :: 'u' :: '0' :: '0' :: hexDigit (c.toNat / 16) :: hexDigit (c.toNat % 16)
      :: rest) = consText c (readText rest) := by
  have hlow : isLowSurrogate c.toNat = false := by
    simp [isLowSurrogate]
    omega
  have hhigh : isHighSurrogate c.toNat = false := by
    simp [isHighSurrogate]
    omega
  rw [readText, hexUnit?_control h]
  simp [hlow, hhigh, Char.ofNat_toNat]

/-- The character that was escaped is the first one that is read. -/
theorem readText_escape (c : Char) (rest : List Char) :
    readText (escape c ++ rest) = consText c (readText rest) := by
  unfold escape
  -- one case for each letter that has an escape of its own
  by_cases hquote : c = '"'
  · subst hquote
    rfl
  by_cases hbackslash : c = '\\'
  · subst hbackslash
    rfl
  by_cases hbackspace : c = '\x08'
  · subst hbackspace
    rfl
  by_cases hfeed : c = '\x0c'
  · subst hfeed
    rfl
  by_cases hline : c = '\n'
  · subst hline
    rfl
  by_cases hreturn : c = '\r'
  · subst hreturn
    rfl
  by_cases htab : c = '\t'
  · subst htab
    rfl
  rw [if_neg hquote, if_neg hbackslash, if_neg hbackspace, if_neg hfeed, if_neg hline,
    if_neg hreturn, if_neg htab]
  by_cases hcontrol : c.toNat < 0x20
  · rw [if_pos hcontrol]
    exact readText_control hcontrol rest
  · rw [if_neg hcontrol]
    exact readText_plain hquote hbackslash hcontrol rest

/-! ## §2 Strings -/

/-- The characters of a printed string are read back up to its closing quote. -/
theorem readText_escaped (text rest : List Char) :
    readText (text.flatMap escape ++ '"' :: rest) = .ok (text, rest) := by
  induction text with
  | nil => rfl
  | cons c text ih =>
    rw [List.flatMap_cons, List.append_assoc, readText_escape, ih]
    rfl

/-- A printed string is its quote and what is read behind it. -/
theorem quoted_append (text : String) (rest : List Char) :
    quoted text ++ rest = '"' :: (text.toList.flatMap escape ++ '"' :: rest) := by
  simp [quoted]

end UpdateFeed.Json
