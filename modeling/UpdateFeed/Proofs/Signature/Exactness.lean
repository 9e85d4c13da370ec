import UpdateFeed.Proofs.Glob.Plain
import UpdateFeed.Proofs.Signature.Considered

/-!
# Searches that find every match

The start and the depth of a search are read off the text of its pattern, while a match is a matter
of the tokens of the pattern.  The two readings agree on plain patterns.  Where they differ, a
search can lose a file that its pattern matches.

- `matchingPaths_of_isPlain`: with a plain pattern, a search finds what the whole tree has.
- `matchingPaths_exact`: with any relative pattern, what a search finds and what it loses.
-/

namespace UpdateFeed.Signature

open UpdateFeed.Path (plainNames)

/-! ## §1 Characters of names -/

theorem mem_of_mem_plainNames {pattern name : String} {c : Char} (hname : name ∈ plainNames pattern)
    (hc : c ∈ name.toList) : c ∈ pattern.toList := by
  rw [plainNames, List.mem_filter] at hname
  obtain ⟨piece, hpiece, rfl⟩ := List.mem_map.mp hname.1
  rw [String.toList_ofList] at hc
  exact Path.subset_of_mem_splitOn hpiece hc

/-- Dropping the steps at its start leaves the end of a pattern. -/
theorem dropDotSteps_isSuffix (pattern : String) :
    (dropDotSteps pattern).toList <:+ pattern.toList := by
  have hchars : ∀ (bound : Nat) (chars : List Char), dropDotStepsChars bound chars <:+ chars := by
    intro bound chars
    fun_induction dropDotStepsChars bound chars with
    | case1 bound rest ih =>
      have hrest : rest <:+ '.' :: '/' :: rest := List.suffix_append ['.', '/'] rest
      exact (ih.trans (List.dropWhile_suffix _)).trans hrest
    | case2 => exact List.suffix_rfl
  rw [dropDotSteps, String.toList_ofList]
  exact hchars pattern.length pattern.toList

/-! ## §2 Plain patterns -/

section

variable {files : FileSystem} {root pattern : String} {node : Node} {tokens : List Glob.Token}

/-- A search with a plain pattern sees every match whose path is not too long. -/
theorem sees_of_isPlain {address : Address} (hground : Ground files root node)
    (hrelative : Path.isAbsolute pattern = false)
    (hplain : ∀ c ∈ pattern.toList, Glob.isPlain c = true)
    (hparse : Glob.parse pattern = .ok tokens) (hmatch : IsMatch node tokens address)
    (hshort : (pathBelow root address).utf8ByteSize < FileSystem.pathLimit) :
    Sees root pattern address := by
  obtain ⟨hnames, hne⟩ := isName_of_isMatch hground hmatch
  have hspelled : ∀ name ∈ literalNames pattern, '\\' ∉ name.toList := by
    intro name hname hbackslash
    -- a literal name has no characters but those of the pattern
    have hmem := mem_of_mem_plainNames ((literalNames_isPrefix pattern).subset hname) hbackslash
    have hnot := hplain _ hmem
    cases hnot
  obtain ⟨hlonger, hprefix⟩ := literalNames_isPrefix_iff hparse hnames hne hmatch.2
  refine ⟨?_, hspelled, ?_⟩
  · -- the address goes through the start, whose path is then no longer
    obtain ⟨names, rfl⟩ := hprefix.mpr hspelled
    have hrest : names ≠ [] := by
      rintro rfl
      simp at hlonger
    have hle : (startOf root pattern).utf8ByteSize ≤
        (pathBelow root (literalNames pattern ++ names)).utf8ByteSize :=
      utf8ByteSize_startOf_le
        (fun name hname => (hnames name (List.mem_append_right _ hname)).isSegment) hrest
    exact Nat.lt_of_le_of_lt hle hshort
  · by_cases hstars : "**" ∈ plainNames pattern
    · exact .inl hstars
    · -- no token takes a slash of its own, so there are no more names than the pattern spells out
      have hstay := Glob.stayInName_of_parse hplain hstars hparse
      exact .inr (Glob.length_le_of_parse hparse hrelative hstay hnames hne hmatch.2)

/-- A search with a plain pattern finds the matches of the whole tree in the order of their names.
It adds none, and it loses none whose path can be used at all. -/
theorem matchingPaths_of_isPlain (hground : Ground files root node)
    (hrelative : Path.isAbsolute pattern = false)
    (hplain : ∀ c ∈ pattern.toList, Glob.isPlain c = true)
    (hdots : HasNoDots (dropDotSteps pattern)) :
    ∃ (tokens : List Glob.Token) (events : List Log.Event) (addresses : List Address),
      Glob.parse (dropDotSteps pattern) = .ok tokens
        ∧ matchingPaths files root pattern = .ok (events, addresses.map (pathBelow root))
        ∧ addresses.Pairwise (· < ·)
        ∧ (∀ address ∈ addresses, IsMatch node tokens address)
        ∧ ∀ address, IsMatch node tokens address →
          (pathBelow root address).utf8ByteSize < FileSystem.pathLimit → address ∈ addresses := by
  have hdropped : ∀ c ∈ (dropDotSteps pattern).toList, Glob.isPlain c = true :=
    fun c hc => hplain c ((dropDotSteps_isSuffix pattern).subset hc)
  have habsolute := isAbsolute_dropDotSteps hrelative
  obtain ⟨tokens, hparse⟩ := Glob.exists_parse_of_isPlain hdropped
  obtain ⟨events, addresses, hpaths, hsorted, hmem⟩ :=
    matchingPaths_eq hground hrelative hdots hparse
  refine ⟨tokens, events, addresses, hparse, hpaths, hsorted, ?_, ?_⟩
  · intro address haddress
    exact ((hmem address).mp haddress).1
  · intro address hmatch hshort
    have hsees := sees_of_isPlain hground habsolute hdropped hparse hmatch hshort
    exact (hmem address).mpr ⟨hmatch, hsees⟩

/-- A project with one signature a directory deeper than another. -/
def sampleTree : Node :=
  .directory
    [("a", .directory
      [("b", .directory
        [("x.sig", .file "s".toUTF8), ("c", .directory [("x.sig", .file "t".toUTF8)])])])]

def sampleFiles : FileSystem := ⟨.directory [("p", sampleTree)], []⟩

theorem ground_sampleFiles : Ground sampleFiles "/p" sampleTree :=
  ⟨rfl, rfl, by decide +kernel⟩

theorem matchingPaths_of_isPlain_sample :
    (∀ c ∈ "./a/*/?.sig".toList, Glob.isPlain c = true)
      ∧ HasNoDots (dropDotSteps "./a/*/?.sig")
      ∧ ∃ events paths, matchingPaths sampleFiles "/p" "./a/*/?.sig" = .ok (events, paths)
        ∧ "/p/a/b/x.sig" ∈ paths := by
  have hplain : ∀ c ∈ "./a/*/?.sig".toList, Glob.isPlain c = true :=
    List.all_eq_true.mp (by decide +kernel)
  have hdots : HasNoDots (dropDotSteps "./a/*/?.sig") := by
    unfold HasNoDots
    decide +kernel
  obtain ⟨tokens, events, addresses, hparse, hpaths, -, -, hcomplete⟩ :=
    matchingPaths_of_isPlain ground_sampleFiles (by decide) hplain hdots
  have hpath : (Glob.parse (dropDotSteps "./a/*/?.sig")).toOption.any
      (Glob.matchesPath · ("/".intercalate ["a", "b", "x.sig"])) = true := by decide +kernel
  rw [hparse] at hpath
  have hmatch : IsMatch sampleTree tokens ["a", "b", "x.sig"] := ⟨⟨"s".toUTF8, rfl⟩, hpath⟩
  have hfound := hcomplete _ hmatch (by decide +kernel)
  exact ⟨hplain, hdots, events, _, hpaths, List.mem_map.mpr ⟨_, hfound, by decide +kernel⟩⟩

/-! ## §3 Any relative pattern -/

/-- A search with a relative pattern finds, in the order of their names, the matches that it sees.
The depth is no obstacle to a pattern whose tokens stay in names. -/
theorem matchingPaths_exact (hground : Ground files root node)
    (hrelative : Path.isAbsolute pattern = false) (hdots : HasNoDots (dropDotSteps pattern))
    (hparse : Glob.parse (dropDotSteps pattern) = .ok tokens) :
    ∃ (events : List Log.Event) (addresses : List Address),
      matchingPaths files root pattern = .ok (events, addresses.map (pathBelow root))
        ∧ addresses.Pairwise (· < ·)
        ∧ (∀ address, address ∈ addresses ↔
          IsMatch node tokens address ∧ Sees root (dropDotSteps pattern) address)
        ∧ (Glob.stayInName tokens = true → ∀ address, IsMatch node tokens address →
          address.length ≤ (plainNames (dropDotSteps pattern)).length) := by
  obtain ⟨events, addresses, hpaths, hsorted, hmem⟩ :=
    matchingPaths_eq hground hrelative hdots hparse
  refine ⟨events, addresses, hpaths, hsorted, hmem, ?_⟩
  intro hstay address hmatch
  obtain ⟨hnames, hne⟩ := isName_of_isMatch hground hmatch
  have habsolute := isAbsolute_dropDotSteps hrelative
  exact Glob.length_le_of_parse hparse habsolute hstay hnames hne hmatch.2

end

/-- Braces hide two stars from the depth, so that one of two matches is lost. -/
theorem matchingPaths_exact_sample :
    ∃ (tokens : List Glob.Token) (events : List Log.Event) (addresses : List Address),
      Glob.parse (dropDotSteps "\x7ba/**,d\x7d/x.sig") = .ok tokens
      ∧ matchingPaths sampleFiles "/p" "\x7ba/**,d\x7d/x.sig" =
        .ok (events, addresses.map (pathBelow "/p"))
      ∧ (IsMatch sampleTree tokens ["a", "b", "x.sig"] ∧ ["a", "b", "x.sig"] ∈ addresses)
      ∧ (IsMatch sampleTree tokens ["a", "b", "c", "x.sig"]
        ∧ ["a", "b", "c", "x.sig"] ∉ addresses) := by
  have hdots : HasNoDots (dropDotSteps "\x7ba/**,d\x7d/x.sig") := by
    unfold HasNoDots
    decide +kernel
  have hnear : (Glob.parse (dropDotSteps "\x7ba/**,d\x7d/x.sig")).toOption.any
      (Glob.matchesPath · ("/".intercalate ["a", "b", "x.sig"])) = true := by decide +kernel
  have hfar : (Glob.parse (dropDotSteps "\x7ba/**,d\x7d/x.sig")).toOption.any
      (Glob.matchesPath · ("/".intercalate ["a", "b", "c", "x.sig"])) = true := by decide +kernel
  cases hparse : Glob.parse (dropDotSteps "\x7ba/**,d\x7d/x.sig") with
  | error fault =>
    rw [hparse] at hnear
    cases hnear
  | ok tokens =>
    rw [hparse] at hnear hfar
    have hnearMatch : IsMatch sampleTree tokens ["a", "b", "x.sig"] := ⟨⟨"s".toUTF8, rfl⟩, hnear⟩
    have hfarMatch : IsMatch sampleTree tokens ["a", "b", "c", "x.sig"] :=
      ⟨⟨"t".toUTF8, rfl⟩, hfar⟩
    obtain ⟨events, addresses, hpaths, -, hmem, -⟩ :=
      matchingPaths_exact ground_sampleFiles (by decide) hdots hparse
    refine ⟨tokens, events, addresses, rfl, hpaths, ⟨hnearMatch, ?_⟩, hfarMatch, ?_⟩
    · apply (hmem _).mpr
      exact ⟨hnearMatch, by decide +kernel, by decide +kernel, .inr (by decide +kernel)⟩
    · intro hfound
      -- the address has four names, and the pattern has three, none of them two stars
      have hdeep := ((hmem _).mp hfound).2.deep
      revert hdeep
      decide +kernel

end UpdateFeed.Signature
