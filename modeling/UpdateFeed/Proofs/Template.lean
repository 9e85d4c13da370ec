import Mathlib.Data.List.Infix
import UpdateFeed.Template

/-!
# Filled templates

The pieces of a template say where its placeholders are: there is more than one piece just when the
placeholder stands somewhere in the text.  Filling puts the version between the pieces, so a version
can be read back from the filled text: its length from the length of the whole, and then its
characters from behind the first piece.

- `hasPlaceholder_iff`: a template has a placeholder just when its text contains it.
- `length_fillChars`: how long a filled template is.
- `fill_injective`: filled with different versions, a template with a placeholder gives different
  texts.
-/

namespace UpdateFeed.Template

/-! ## §1 Placeholders in a text -/

theorem toList_placeholder :
    placeholder.toList = ['{', 'v', 'e', 'r', 's', 'i', 'o', 'n', '}'] := by
  decide

theorem length_consHead (c : Char) {ps : List (List Char)} (h : ps ≠ []) :
    (consHead c ps).length = ps.length := by
  cases ps with
  | nil => exact absurd rfl h
  | cons piece others => rfl

/-- There is more than one piece just when the placeholder stands somewhere in the text. -/
theorem one_lt_length_pieces_iff (template : List Char) :
    1 < (pieces template).length ↔ placeholder.toList <:+: template := by
  induction template using pieces.induct with
  | case1 => simp [pieces, toList_placeholder]
  | case2 rest ih =>
    -- the placeholder in front is a piece boundary of its own
    have hrest : 0 < (pieces rest).length := List.length_pos_of_ne_nil (pieces_ne_nil rest)
    constructor
    · intro _
      rw [toList_placeholder]
      exact ⟨[], rest, rfl⟩
    · intro _
      rw [pieces, List.length_cons]
      omega
  | case3 c rest hne ih =>
    rw [pieces, length_consHead c (pieces_ne_nil rest), ih]
    · rw [List.infix_cons_iff]
      constructor
      · exact .inr
      · -- the text does not begin with the placeholder, so it stands behind the first character
        rintro (⟨more, hmore⟩ | h)
        · rw [toList_placeholder] at hmore
          obtain ⟨rfl, rfl⟩ := List.cons.inj hmore
          exact absurd rfl (hne more rfl)
        · exact h
    · exact hne

/-- A template has a placeholder just when its text contains it. -/
theorem hasPlaceholder_iff {template : String} :
    hasPlaceholder template = true ↔ placeholder.toList <:+: template.toList := by
  rw [hasPlaceholder, decide_eq_true_iff]
  exact one_lt_length_pieces_iff template.toList

/-! ## §2 Versions in a filled template -/

theorem length_intercalate (version piece : List Char) (others : List (List Char)) :
    (version.intercalate (piece :: others)).length =
      (piece :: others).flatten.length + others.length * version.length := by
  induction others generalizing piece with
  | nil => simp [List.intercalate]
  | cons next others ih =>
    rw [List.intercalate_cons_cons, List.length_append, ih next]
    simp only [List.flatten_cons, List.length_append, List.length_cons, Nat.succ_mul]
    omega

/-- A filled template has the characters of its pieces, and the version for each placeholder. -/
theorem length_fillChars (template version : List Char) :
    (fillChars template version).length =
      (pieces template).flatten.length + ((pieces template).length - 1) * version.length := by
  unfold fillChars
  cases hpieces : pieces template with
  | nil => exact absurd hpieces (pieces_ne_nil template)
  | cons piece others => simpa using length_intercalate version piece others

/-- Filled with different versions, a template with a placeholder gives different texts. -/
theorem fill_injective {template : String} (h : hasPlaceholder template = true) :
    Function.Injective (fill template) := by
  intro first second heq
  have hchars : fillChars template.toList first.toList =
      fillChars template.toList second.toList :=
    String.ofList_injective heq
  have hmany : 1 < (pieces template.toList).length := by simpa [hasPlaceholder] using h
  -- the lengths agree, since every version stands equally often between the same pieces
  have hlength : first.toList.length = second.toList.length := by
    have hlengths := congrArg List.length hchars
    rw [length_fillChars, length_fillChars] at hlengths
    apply Nat.eq_of_mul_eq_mul_left (Nat.sub_pos_of_lt hmany)
    exact Nat.add_left_cancel hlengths
  -- so both stand at the same place, right behind the first piece
  obtain ⟨piece, next, others, hpieces⟩ : ∃ piece next others,
      pieces template.toList = piece :: next :: others := by
    rcases hp : pieces template.toList with _ | ⟨piece, _ | ⟨next, others⟩⟩
    · simp [hp] at hmany
    · simp [hp] at hmany
    · exact ⟨piece, next, others, rfl⟩
  simp only [fillChars, hpieces, List.intercalate_cons_cons, List.append_assoc] at hchars
  have hrests := List.append_cancel_left hchars
  apply String.toList_injective
  exact (List.append_inj hrests hlength).1

end UpdateFeed.Template
