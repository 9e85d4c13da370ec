import UpdateFeed.Signature
import UpdateFeed.Proofs.Glob.LiteralStart
import UpdateFeed.Proofs.Path

/-!
# Where a descent starts

A search starts in the directory that the names of its pattern spell out up to the first sign of a
glob.  The glob itself reads the same characters without their backslashes.  So the files that it
matches are below that directory exactly when there are no backslashes to take away.

- `literalNames`: the names that a descent starts from.
- `literalNames_isPrefix_iff`: when a path that the glob matches begins with them.
-/

namespace UpdateFeed.Signature

open UpdateFeed.Path (IsName plainNames)
open Glob (isSign unescaped)

/-! ## §1 Names and characters -/

/-- The directories at the start of a pattern that have no sign of a glob in them. -/
def literalNames (pattern : String) : List String :=
  (plainNames pattern).dropLast.takeWhile (!hasWildcard ·)

theorem hasWildcard_eq (segment : String) : hasWildcard segment = segment.toList.any isSign := rfl

theorem literalNames_isPrefix (pattern : String) : literalNames pattern <+: plainNames pattern :=
  (List.takeWhile_prefix _).trans (List.dropLast_prefix _)

theorem hasWildcard_of_mem_literalNames {pattern name : String}
    (h : name ∈ literalNames pattern) : hasWildcard name = false := by
  have hall : ∀ name ∈ literalNames pattern, (!hasWildcard name) = true :=
    List.all_eq_true.mp List.all_takeWhile
  simpa using hall name h

theorem length_literalNames_lt {pattern : String} (h : plainNames pattern ≠ []) :
    (literalNames pattern).length < (plainNames pattern).length := by
  have hle : (literalNames pattern).length ≤ (plainNames pattern).dropLast.length :=
    (List.takeWhile_prefix _).length_le
  have hpos := List.length_pos_iff.mpr h
  rw [List.length_dropLast] at hle
  omega

theorem mem_intercalate {c sep : Char} {pieces : List (List Char)}
    (h : c ∈ [sep].intercalate pieces) : c = sep ∨ ∃ piece ∈ pieces, c ∈ piece := by
  induction pieces with
  | nil => simp at h
  | cons piece pieces ih =>
    by_cases hrest : pieces = []
    · subst hrest
      exact .inr ⟨piece, by simp, by simpa using h⟩
    · rw [List.intercalate_cons_of_ne_nil hrest, List.mem_append, List.mem_append,
        List.mem_singleton] at h
      rcases h with (hmem | hsep) | hmem
      · exact .inr ⟨piece, by simp, hmem⟩
      · exact .inl hsep
      · rcases ih hmem with hsep | ⟨other, hother, hmem⟩
        · exact .inl hsep
        · exact .inr ⟨other, by simp [hother], hmem⟩

theorem intercalate_append {sep : Char} {first second : List (List Char)} (hfirst : first ≠ [])
    (hsecond : second ≠ []) :
    [sep].intercalate (first ++ second) =
      [sep].intercalate first ++ sep :: [sep].intercalate second := by
  induction first with
  | nil => exact absurd rfl hfirst
  | cons piece first ih =>
    have hne : first ++ second ≠ [] := by simp [hsecond]
    rw [List.cons_append, List.intercalate_cons_of_ne_nil hne]
    by_cases hrest : first = []
    · subst hrest
      simp
    · rw [ih hrest, List.intercalate_cons_of_ne_nil hrest]
      simp

/-- Some of the kept items of a list, but not all of them, are those of a part at its start. -/
theorem exists_append_of_filter {α : Type} {keep : α → Bool} {items : List α} {count : Nat}
    (h : 0 < count) (hlt : count < (items.filter keep).length) :
    ∃ first second, items = first ++ second ∧ first ≠ [] ∧ second ≠ []
      ∧ first.filter keep = (items.filter keep).take count := by
  induction items generalizing count with
  | nil => simp at hlt
  | cons item items ih =>
    by_cases hitem : keep item = true
    · -- a kept item is one of those that are counted
      rw [List.filter_cons_of_pos hitem] at hlt ⊢
      obtain ⟨fewer, rfl⟩ : ∃ fewer, count = fewer + 1 := ⟨count - 1, by omega⟩
      by_cases hone : fewer = 0
      · subst hone
        refine ⟨[item], items, rfl, by simp, ?_, by simp [hitem]⟩
        rintro rfl
        simp at hlt
      · rw [List.length_cons] at hlt
        have hfewer : 0 < fewer := by omega
        have hless : fewer < (items.filter keep).length := by omega
        obtain ⟨first, second, rfl, -, hsecond, hfilter⟩ := ih hfewer hless
        refine ⟨item :: first, second, rfl, by simp, hsecond, ?_⟩
        rw [List.filter_cons_of_pos hitem, hfilter, List.take_succ_cons]
    · rw [List.filter_cons_of_neg hitem] at hlt ⊢
      obtain ⟨first, second, rfl, -, hsecond, hfilter⟩ := ih h hlt
      refine ⟨item :: first, second, rfl, by simp, hsecond, ?_⟩
      rw [List.filter_cons_of_neg hitem, hfilter]

/-- The literal names of a pattern are the pieces, apart from empty ones, of a literal start of it.
-/
theorem exists_pieces {pattern : String} (h : literalNames pattern ≠ []) :
    ∃ pieces rest, pattern.toList = ['/'].intercalate pieces ++ '/' :: rest ∧ pieces ≠ []
      ∧ (∀ piece ∈ pieces, '/' ∉ piece)
      ∧ literalNames pattern = (pieces.filter (· ≠ [])).map String.ofList := by
  have hne : plainNames pattern ≠ [] := by
    intro hnil
    rw [literalNames, hnil] at h
    exact h rfl
  have hplain : plainNames pattern =
      ((pattern.toList.splitOn '/').filter (· ≠ [])).map String.ofList := by
    rw [plainNames, Path.segments, List.filter_map]
    congr 2
    funext piece
    simp
  have hlt := length_literalNames_lt hne
  rw [hplain, List.length_map] at hlt
  -- the last name is never literal, so the pattern goes on behind the literal ones
  obtain ⟨first, second, hsplit, hfirst, hsecond, hfilter⟩ :=
    exists_append_of_filter (List.length_pos_iff.mpr h) hlt
  refine ⟨first, ['/'].intercalate second, ?_, hfirst, ?_, ?_⟩
  · rw [← intercalate_append hfirst hsecond, ← hsplit, List.intercalate_splitOn]
  · intro piece hpiece
    apply Path.slash_notMem_of_mem_splitOn
    rw [hsplit]
    exact List.mem_append_left _ hpiece
  · rw [hfilter, List.map_take, ← hplain]
    exact List.prefix_iff_eq_take.mp (literalNames_isPrefix pattern)

theorem isSign_eq_false_of_mem {pattern : String} {pieces : List (List Char)}
    (h : literalNames pattern = (pieces.filter (· ≠ [])).map String.ofList) :
    ∀ c ∈ ['/'].intercalate pieces, isSign c = false := by
  intro c hc
  rcases mem_intercalate hc with rfl | ⟨piece, hpiece, hmem⟩
  · decide
  · have hname : String.ofList piece ∈ literalNames pattern := by
      rw [h]
      refine List.mem_map.mpr ⟨piece, List.mem_filter.mpr ⟨hpiece, ?_⟩, rfl⟩
      simpa using List.ne_nil_of_mem hmem
    have hwild := hasWildcard_of_mem_literalNames hname
    rw [hasWildcard_eq, String.toList_ofList, List.any_eq_false] at hwild
    simpa using hwild c hmem

/-! ## §2 Matched paths -/

/-- The names of a matched path are the pieces of a literal start without their backslashes, and
then others. -/
theorem exists_names_eq {pattern : String} {tokens : List Glob.Token} {names : List String}
    {pieces : List (List Char)} {rest : List Char}
    (hpattern : pattern.toList = ['/'].intercalate pieces ++ '/' :: rest)
    (hsigns : ∀ c ∈ ['/'].intercalate pieces, isSign c = false)
    (hslash : ∀ piece ∈ pieces, '/' ∉ piece) (hpieces : pieces ≠ [])
    (hparse : Glob.parse pattern = .ok tokens)
    (hnames : ∀ name ∈ names, IsName name) (hne : names ≠ [])
    (hmatch : Glob.matchesPath tokens ("/".intercalate names) = true) :
    ∃ more, more ≠ [] ∧ names.map String.toList = pieces.map unescaped ++ more := by
  obtain ⟨text, hpath⟩ := Glob.exists_append_of_matchesPath hpattern hsigns hparse hmatch
  have hsegments := Path.segments_intercalate (fun name hname => (hnames name hname).2.2.2) hne
  rw [Path.segments, hpath, List.splitOn_append_cons_self, Glob.splitOn_unescaped,
    List.splitOn_intercalate '/' hslash hpieces] at hsegments
  refine ⟨text.splitOn '/', List.splitOn_ne_nil '/' text, ?_⟩
  rw [← hsegments]
  simp

/-- Pieces stand at the start of themselves without backslashes only if they have none. -/
theorem isPrefix_unescaped_iff {pieces more : List (List Char)} :
    pieces <+: pieces.map unescaped ++ more ↔ ∀ piece ∈ pieces, '\\' ∉ piece := by
  -- both lists have the same length, so a prefix is all of it
  have hsame : pieces <+: pieces.map unescaped ++ more ↔
      pieces.map unescaped = pieces.map id := by
    rw [List.map_id]
    constructor
    · intro h
      have hshort : pieces.length ≤ (pieces.map unescaped).length := by simp
      have hpart := List.prefix_of_prefix_length_le h (List.prefix_append _ _) hshort
      exact (hpart.eq_of_length (by simp)).symm
    · intro heq
      rw [heq]
      exact List.prefix_append _ _
  rw [hsame, List.map_inj_left]
  apply forall₂_congr
  intro piece hpiece
  exact Glob.unescaped_eq_self_iff

/-- A path that a pattern matches begins with the literal names of the pattern exactly when there is
no backslash in them; and it goes on behind them. -/
theorem literalNames_isPrefix_iff {pattern : String} {tokens : List Glob.Token}
    {names : List String} (hparse : Glob.parse pattern = .ok tokens)
    (hnames : ∀ name ∈ names, IsName name) (hne : names ≠ [])
    (hmatch : Glob.matchesPath tokens ("/".intercalate names) = true) :
    (literalNames pattern).length < names.length
      ∧ (literalNames pattern <+: names ↔ ∀ name ∈ literalNames pattern, '\\' ∉ name.toList) := by
  by_cases hliteral : literalNames pattern = []
  · rw [hliteral]
    exact ⟨List.length_pos_iff.mpr hne, by simp⟩
  · obtain ⟨pieces, rest, hpattern, hpieces, hslash, hfilter⟩ := exists_pieces hliteral
    obtain ⟨more, hmore, hsplit⟩ := exists_names_eq hpattern (isSign_eq_false_of_mem hfilter) hslash
      hpieces hparse hnames hne hmatch
    -- a name of the path is not empty, so the pattern has no slashes in a row before its signs
    have hfull : ∀ piece ∈ pieces, piece ≠ [] := by
      rintro piece hpiece rfl
      have hmem : [] ∈ names.map String.toList := by
        rw [hsplit]
        exact List.mem_append_left _ (List.mem_map.mpr ⟨[], hpiece, rfl⟩)
      obtain ⟨name, hname, hempty⟩ := List.mem_map.mp hmem
      exact (hnames name hname).1 (by simpa using hempty)
    have hall : pieces.filter (· ≠ []) = pieces := by
      apply List.filter_eq_self.mpr
      intro piece hpiece
      simpa using hfull piece hpiece
    have hback : (literalNames pattern).map String.toList = pieces := by
      rw [hfilter, hall]
      simp
    constructor
    · have hlength := congrArg List.length hsplit
      have hpos := List.length_pos_iff.mpr hmore
      rw [← List.length_map String.toList, hback]
      rw [List.length_map, List.length_append, List.length_map] at hlength
      omega
    · have hinjective : Function.Injective String.toList := fun _ _ heq => String.toList_inj.mp heq
      rw [← List.prefix_map_iff_of_injective hinjective, hback, hsplit, isPrefix_unescaped_iff,
        ← hback, List.forall_mem_map]

end UpdateFeed.Signature
