import UpdateFeed.Proofs.Template
import UpdateFeed.Target

/-!
# Placeholders that are filled

The pieces of a template are what its placeholders leave of it: joined by the placeholder they give
the template back, and none of them contains it.  No two placeholders overlap, so the text of the
template is cut in this way only.

A version that is put between the pieces can make up a placeholder with the text around it.  One
without braces does so only if all of its characters stand in the placeholder: a placeholder in the
filled text begins and ends in pieces then, and goes through no version as a whole.

- `isCut_iff`: the pieces of a template are the only way to cut it at its placeholders.
- `IsDistinct.not_infix_intercalate`: a text that is joined by such a version has no placeholder.
- `downloadAddress_filled`: what the download address of a release is.
-/

namespace UpdateFeed

namespace Template

variable {template version front rest piece : List Char} {cut : List (List Char)} {c : Char}

/-! ## §1 Pieces and placeholders -/

/-- Whether a text is cut at its placeholders: the parts are free of them, and joined by them they
are the text. -/
structure IsCut (template : List Char) (cut : List (List Char)) : Prop where
  ne_nil : cut ≠ []
  joined : placeholder.toList.intercalate cut = template
  free : ∀ piece ∈ cut, ¬ placeholder.toList <:+: piece

theorem intercalate_consHead (version : List Char) (c : Char) {cut : List (List Char)}
    (h : cut ≠ []) :
    version.intercalate (consHead c cut) = c :: version.intercalate cut := by
  match cut, h with
  | [piece], _ => simp [consHead, List.intercalate]
  | piece :: next :: others, _ => simp [consHead, List.intercalate_cons_cons]

/-- The pieces of a template, joined by the placeholder, are the template. -/
theorem intercalate_pieces (template : List Char) :
    placeholder.toList.intercalate (pieces template) = template := by
  induction template using pieces.induct with
  | case1 => simp [pieces, List.intercalate]
  | case2 rest ih =>
    obtain ⟨piece, others, hpieces⟩ := List.exists_cons_of_ne_nil (pieces_ne_nil rest)
    rw [hpieces] at ih
    rw [pieces, hpieces, List.intercalate_cons_cons, ih, toList_placeholder]
    rfl
  | case3 c rest hne ih =>
    rw [pieces]
    · rw [intercalate_consHead _ c (pieces_ne_nil rest), ih]
    · exact hne

/-- The first piece stands at the start of the template. -/
theorem prefix_of_pieces {others : List (List Char)} (h : pieces template = piece :: others) :
    piece <+: template := by
  rw [← intercalate_pieces template, h]
  cases others with
  | nil => simp [List.intercalate]
  | cons next others =>
    rw [List.intercalate_cons_cons, List.append_assoc]
    exact List.prefix_append _ _

/-- No piece contains the placeholder. -/
theorem not_infix_of_mem_pieces (h : piece ∈ pieces template) :
    ¬ placeholder.toList <:+: piece := by
  induction template using pieces.induct generalizing piece with
  | case1 =>
    rw [pieces, List.mem_singleton] at h
    simp [h, toList_placeholder]
  | case2 rest ih =>
    rw [pieces, List.mem_cons] at h
    rcases h with rfl | h
    · simp [toList_placeholder]
    · exact ih h
  | case3 c rest hne ih =>
    rw [pieces] at h
    · obtain ⟨first, others, hpieces⟩ := List.exists_cons_of_ne_nil (pieces_ne_nil rest)
      rw [hpieces, consHead, List.mem_cons] at h
      rcases h with rfl | h
      · -- the template does not begin with the placeholder, so the first piece does not either
        rw [List.infix_cons_iff]
        rintro (hbegins | hwithin)
        · have hstart := hbegins.trans ((List.prefix_cons_inj c).mpr (prefix_of_pieces hpieces))
          obtain ⟨more, hmore⟩ := hstart
          rw [toList_placeholder] at hmore
          obtain ⟨rfl, rfl⟩ := List.cons.inj hmore
          exact hne more rfl rfl
        · exact ih (by simp [hpieces]) hwithin
      · exact ih (by simp [hpieces, h])
    · exact hne

theorem isCut_pieces (template : List Char) : IsCut template (pieces template) :=
  ⟨pieces_ne_nil template, intercalate_pieces template, fun _ => not_infix_of_mem_pieces⟩

/-- A template that is free of placeholders is one piece. -/
theorem pieces_of_free (h : ¬ placeholder.toList <:+: template) : pieces template = [template] := by
  have hjoined := intercalate_pieces template
  match hpieces : pieces template with
  | [] => exact absurd hpieces (pieces_ne_nil template)
  | [piece] =>
    rw [hpieces] at hjoined
    simpa [List.intercalate] using hjoined
  | first :: second :: others =>
    have hmany := (one_lt_length_pieces_iff template).mp (by simp [hpieces])
    exact absurd hmany h

/-- What begins a text that has a character which does not stand in it, begins the text before that
character. -/
theorem prefix_of_prefix_append {start : List Char} (hc : c ∉ start)
    (h : start <+: front ++ c :: rest) : start <+: front := by
  rcases List.prefix_or_prefix_of_prefix h (List.prefix_append front (c :: rest)) with
    hfront | hmore
  · exact hfront
  · -- all that is behind the front would begin with the character
    obtain ⟨left, rfl⟩ := hmore
    rw [List.prefix_append_right_inj] at h
    cases left with
    | nil => simp
    | cons d left =>
      obtain ⟨rfl, -⟩ := List.cons_prefix_cons.mp h
      simp at hc

/-- In front of a placeholder a text that is free of them is one piece. -/
theorem pieces_append (h : ¬ placeholder.toList <:+: piece) (rest : List Char) :
    pieces (piece ++ placeholder.toList ++ rest) = piece :: pieces rest := by
  induction piece with
  | nil =>
    rw [toList_placeholder]
    rfl
  | cons c piece ih =>
    have hpiece : ¬ placeholder.toList <:+: piece := fun hwithin => h (List.infix_cons hwithin)
    -- a placeholder that begins in the text ends before the next one begins
    have hstart : ∀ more, c = '{' → piece ++ placeholder.toList ++ rest =
        'v' :: 'e' :: 'r' :: 's' :: 'i' :: 'o' :: 'n' :: '}' :: more → False := by
      rintro more rfl hmore
      have hbegins : ['v', 'e', 'r', 's', 'i', 'o', 'n', '}'] <+: piece := by
        have hjoined : ['v', 'e', 'r', 's', 'i', 'o', 'n', '}'] <+:
            piece ++ '{' :: (['v', 'e', 'r', 's', 'i', 'o', 'n', '}'] ++ rest) := by
          refine ⟨more, ?_⟩
          rw [toList_placeholder] at hmore
          simpa using hmore.symm
        exact prefix_of_prefix_append (by decide) hjoined
      apply h
      rw [toList_placeholder]
      exact (List.cons_prefix_cons.mpr ⟨rfl, hbegins⟩).isInfix
    rw [List.cons_append, List.cons_append, pieces, ih hpiece]
    · rfl
    · exact hstart

/-- The pieces of a template are the only way to cut it at its placeholders. -/
theorem isCut_iff : IsCut template cut ↔ cut = pieces template := by
  constructor
  · rintro ⟨hne, rfl, hfree⟩
    -- the first piece holds no placeholder, so the reader cuts where it ends
    induction cut with
    | nil => exact absurd rfl hne
    | cons piece cut ih =>
      obtain ⟨hpiece, hothers⟩ := List.forall_mem_cons.mp hfree
      cases cut with
      | nil =>
        have hjoined : placeholder.toList.intercalate [piece] = piece := by
          simp [List.intercalate]
        rw [hjoined, pieces_of_free hpiece]
      | cons next others =>
        rw [List.intercalate_cons_cons, pieces_append hpiece, ← ih (by simp) hothers]
  · rintro rfl
    exact isCut_pieces template

/-! ## §2 Filled texts -/

/-- A text that stands in another one, but does not have a character of it, stands before or behind
that character. -/
theorem infix_append_cons (hne : piece ≠ []) (hc : c ∉ piece)
    (h : piece <:+: front ++ c :: rest) : piece <:+: front ∨ piece <:+: rest := by
  have hstart : ∀ part, part ≠ [] → part <+: c :: rest → c ∈ part := by
    intro part hpart hbegins
    obtain ⟨d, part, rfl⟩ := List.exists_cons_of_ne_nil hpart
    obtain ⟨rfl, -⟩ := List.cons_prefix_cons.mp hbegins
    exact List.mem_cons_self
  rcases List.infix_append_iff_ne_nil.mp h with
    hfront | hbehind | ⟨left, right, -, hright, rfl, -, hbehind⟩
  · exact .inl hfront
  · rcases List.infix_cons_iff.mp hbehind with hbegins | hrest
    · exact absurd (hstart piece hne hbegins) hc
    · exact .inr hrest
  · exact absurd (List.mem_append_right left (hstart right hright hbehind)) hc

/-- A placeholder does not end in a text without a closing brace. -/
theorem infix_of_infix_append_left (hclose : '}' ∉ rest)
    (h : placeholder.toList <:+: front ++ rest) : placeholder.toList <:+: front := by
  have hend : ∀ part, part ≠ [] → part <:+ placeholder.toList → '}' ∈ part := by
    intro part hpart hsuffix
    rw [toList_placeholder] at hsuffix
    have hconcat : part <:+ ['{', 'v', 'e', 'r', 's', 'i', 'o', 'n'] ++ ['}'] := hsuffix
    rcases List.suffix_concat_iff.mp hconcat with rfl | ⟨before, rfl, -⟩
    · exact absurd rfl hpart
    · simp
  rcases List.infix_append_iff_ne_nil.mp h with
    hfront | hrest | ⟨left, right, -, hright, hsplit, -, hrest⟩
  · exact hfront
  · exact absurd (hrest.subset (hend _ (by decide) List.suffix_rfl)) hclose
  · exact absurd (hrest.subset (hend right hright ⟨left, hsplit.symm⟩)) hclose

/-- A placeholder does not begin in a text without an opening brace. -/
theorem infix_of_infix_append_right (hopen : '{' ∉ front)
    (h : placeholder.toList <:+: front ++ rest) : placeholder.toList <:+: rest := by
  have hstart : ∀ part, part ≠ [] → part <+: placeholder.toList → '{' ∈ part := by
    intro part hpart hbegins
    obtain ⟨d, part, rfl⟩ := List.exists_cons_of_ne_nil hpart
    rw [toList_placeholder] at hbegins
    obtain ⟨rfl, -⟩ := List.cons_prefix_cons.mp hbegins
    exact List.mem_cons_self
  rcases List.infix_append_iff_ne_nil.mp h with
    hfront | hrest | ⟨left, right, hleft, -, hsplit, hfront, -⟩
  · exact absurd (hfront.subset (hstart _ (by decide) List.prefix_rfl)) hopen
  · exact hrest
  · exact absurd (hfront.subset (hstart left hleft ⟨right, hsplit.symm⟩)) hopen

/-- Whether a version cannot make up a placeholder with the text around it: it has no braces, and a
character that is none of those between the braces of the placeholder. -/
structure IsDistinct (version : List Char) : Prop where
  noOpening : '{' ∉ version
  noClosing : '}' ∉ version
  another : ∃ c ∈ version, c ∉ "version".toList

/-- A version with a digit in it has another character than the letters of the placeholder. -/
theorem isDistinct_of_isDigit (hopen : '{' ∉ version) (hclose : '}' ∉ version)
    (hdigit : ∃ c ∈ version, c.isDigit) : IsDistinct version := by
  refine ⟨hopen, hclose, ?_⟩
  obtain ⟨c, hmem, hc⟩ := hdigit
  refine ⟨c, hmem, fun hletter => ?_⟩
  have hnone : ∀ letter ∈ "version".toList, letter.isDigit = false := by simp
  rw [hnone c hletter] at hc
  cases hc

/-- A placeholder around a distinct version stands on one side of it. -/
theorem IsDistinct.infix_or (h : IsDistinct version)
    (hwithin : placeholder.toList <:+: front ++ version ++ rest) :
    placeholder.toList <:+: front ∨ placeholder.toList <:+: rest := by
  obtain ⟨hopen, hclose, c, hmem, hletter⟩ := h
  obtain ⟨before, behind, rfl⟩ := List.append_of_mem hmem
  have hc : c ∉ placeholder.toList := by
    intro hplaceholder
    have hcases : c = '{' ∨ c ∈ "version".toList ∨ c = '}' := by
      simpa [toList_placeholder, or_assoc] using hplaceholder
    rcases hcases with rfl | hc | rfl
    · exact hopen hmem
    · exact hletter hc
    · exact hclose hmem
  -- it does not have the character that is no letter, so it ends before it or begins behind it
  have hsides : placeholder.toList <:+: (front ++ before) ++ c :: (behind ++ rest) := by
    simpa using hwithin
  rcases infix_append_cons (by decide) hc hsides with hfront | hrest
  · exact .inl (infix_of_infix_append_left (fun h => hclose (List.mem_append_left _ h)) hfront)
  · exact .inr (infix_of_infix_append_right
      (fun h => hopen (List.mem_append_right _ (List.mem_cons_of_mem c h))) hrest)

/-- Pieces that are free of placeholders, joined by a distinct version, are free of them. -/
theorem IsDistinct.not_infix_intercalate (h : IsDistinct version) (hcut : cut ≠ [])
    (hfree : ∀ piece ∈ cut, ¬ placeholder.toList <:+: piece) :
    ¬ placeholder.toList <:+: version.intercalate cut := by
  induction cut with
  | nil => exact absurd rfl hcut
  | cons piece cut ih =>
    obtain ⟨hpiece, hothers⟩ := List.forall_mem_cons.mp hfree
    cases cut with
    | nil => simpa [List.intercalate] using hpiece
    | cons next others =>
      rw [List.intercalate_cons_cons]
      intro hwithin
      rcases h.infix_or hwithin with hfront | hrest
      · exact hpiece hfront
      · exact ih (by simp) hothers hrest

end Template

/-! ## §3 Download addresses -/

open Template

/-- The download address for a distinct version has no placeholder any more.  It is what the
placeholders leave of the template, which is determined by its text, joined by the version. -/
theorem TargetSettings.downloadAddress_filled (settings : TargetSettings) {version : String}
    (h : IsDistinct version.toList) :
    ¬ placeholder.toList <:+: (settings.downloadAddress version).toList
      ∧ ∃ cut, IsCut settings.addressTemplate.toList cut
        ∧ (∀ other, IsCut settings.addressTemplate.toList other → other = cut)
        ∧ (settings.downloadAddress version).toList = version.toList.intercalate cut := by
  have hcut := isCut_pieces settings.addressTemplate.toList
  have haddress : (settings.downloadAddress version).toList =
      version.toList.intercalate (pieces settings.addressTemplate.toList) := by
    rw [downloadAddress, fill, String.toList_ofList, fillChars]
  refine ⟨?_, _, hcut, fun other hother => isCut_iff.mp hother, haddress⟩
  rw [haddress]
  exact h.not_infix_intercalate hcut.ne_nil hcut.free

/-- Settings whose template has parts of a placeholder around the placeholders. -/
def crowdedSettings : TargetSettings :=
  { TargetSettings.standard .linux with
    addressTemplate := "\x7bversion\x7bversion\x7d\x7d\x7bver\x7bversion\x7dsion\x7d" }

theorem TargetSettings.downloadAddress_filled_sample :
    IsDistinct "1.0".toList
      ∧ crowdedSettings.downloadAddress "1.0" = "\x7bversion1.0\x7d\x7bver1.0sion\x7d"
      ∧ ¬ placeholder.toList <:+: (crowdedSettings.downloadAddress "1.0").toList := by
  have hdistinct : IsDistinct "1.0".toList :=
    isDistinct_of_isDigit (by decide) (by decide) ⟨'1', by decide, rfl⟩
  exact ⟨hdistinct, by decide +kernel, (crowdedSettings.downloadAddress_filled hdistinct).1⟩

end UpdateFeed
