/-!
# URL templates

A template is a text with placeholders `{version}`.  It is read as its *pieces*, the stretches of
text before, between and after the placeholders, and filled by joining the pieces with the version.
Placeholders are found from left to right and do not overlap.

- `pieces_ne_nil`: there is always at least one piece.
-/

namespace UpdateFeed.Template

/-! ## §1 Pieces -/

/-- The text that stands for the version. -/
def placeholder : String := "\x7bversion\x7d"

/-- Puts a character in front of the first piece. -/
def consHead (c : Char) : List (List Char) → List (List Char)
  | [] => [[c]]
  | piece :: others => (c :: piece) :: others

/-- The stretches of a template before, between and after its placeholders. -/
def pieces : List Char → List (List Char)
  | [] => [[]]
  | '{' :: 'v' :: 'e' :: 'r' :: 's' :: 'i' :: 'o' :: 'n' :: '}' :: rest => [] :: pieces rest
  | c :: rest => consHead c (pieces rest)

/-- Whether a template has at least one placeholder. -/
def hasPlaceholder (template : String) : Bool :=
  1 < (pieces template.toList).length

theorem consHead_ne_nil (c : Char) (ps : List (List Char)) : consHead c ps ≠ [] := by
  cases ps <;> simp [consHead]

/-- Every template has at least one piece. -/
theorem pieces_ne_nil (template : List Char) : pieces template ≠ [] := by
  fun_cases pieces template with
  | case1 => simp
  | case2 => simp
  | case3 => exact consHead_ne_nil _ _

/-! ## §2 Filling -/

/-- The pieces joined by `version`. -/
def fillChars (template version : List Char) : List Char :=
  version.intercalate (pieces template)

/-- A template with every placeholder replaced by `version`. -/
def fill (template version : String) : String :=
  String.ofList (fillChars template.toList version.toList)

end UpdateFeed.Template
