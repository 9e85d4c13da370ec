import Mathlib.Data.List.Lex
import Mathlib.Data.String.Basic
import UpdateFeed.Proofs.Glob.SlashBound
import UpdateFeed.Proofs.Signature.Steps

/-!
# The files that a search considers

A search lists the files from its start down to its depth, and keeps those that the glob matches.
So it finds the matched files of the whole tree, unless the start or the depth cuts one of them
off.  The start does when a backslash stands in a literal name; the depth does when a stretch of
stars, or a class that admits a slash, stands where the pattern has no name of two stars.

- `Sees`: what the start and the depth let a search see.
- `matchingPaths_eq`: which files are found for a relative pattern.
-/

namespace UpdateFeed.Signature

open UpdateFeed.Path (IsName forall_isSegment plainNames)

/-! ## §1 Depth and order -/

/-- Two stars are signs of a glob, so they are none of the literal names. -/
theorem stars_mem_drop_iff (pattern : String) :
    "**" ∈ (plainNames pattern).drop (literalNames pattern).length ↔
      "**" ∈ plainNames pattern := by
  have htake : (plainNames pattern).take (literalNames pattern).length = literalNames pattern :=
    (List.prefix_iff_eq_take.mp (literalNames_isPrefix pattern)).symm
  conv_rhs => rw [← List.take_append_drop (literalNames pattern).length (plainNames pattern)]
  rw [List.mem_append, htake]
  constructor
  · exact .inr
  · intro h
    apply h.resolve_left
    intro hliteral
    have hwild := hasWildcard_of_mem_literalNames hliteral
    exact absurd hwild (by decide)

/-- A search goes down by the names that are not literal, or without a bound. -/
theorem depth?_descent {pattern : String} (h : plainNames pattern ≠ []) :
    (descent pattern).depth? =
      if "**" ∈ plainNames pattern then none
      else some ((plainNames pattern).length - (literalNames pattern).length) := by
  unfold descent
  split
  · rename_i hnil
    exact absurd hnil h
  · dsimp only
    show (if ((plainNames pattern).drop (literalNames pattern).length).contains "**" = true
      then none else some ((plainNames pattern).drop (literalNames pattern).length).length) = _
    simp only [List.contains_iff_mem, stars_mem_drop_iff, List.length_drop]

/-- What a search lists behind the literal names has as many names as the pattern, or any number if
one of its names is two stars. -/
theorem reaches_descent {pattern : String} (h : plainNames pattern ≠ []) (names : List String) :
    Node.reaches (descent pattern).depth? names = true ↔
      "**" ∈ plainNames pattern
        ∨ (literalNames pattern ++ names).length ≤ (plainNames pattern).length := by
  have hlt := length_literalNames_lt h
  rw [depth?_descent h, List.length_append]
  split_ifs with hmem
  · simp [Node.reaches, hmem]
  · simp only [Node.reaches, Option.all_some, decide_eq_true_eq, hmem, false_or]
    omega

theorem mem_sorted {addresses : List Address} {address : Address} :
    address ∈ sorted addresses ↔ address ∈ addresses := by
  simp [sorted]

/-- Different addresses are strictly in order once they are sorted. -/
theorem pairwise_sorted {addresses : List Address} (h : addresses.Nodup) :
    (sorted addresses).Pairwise (· < ·) := by
  have hsorted : (sorted addresses).Pairwise (fun a b => (!decide (b < a)) = true) := by
    apply List.pairwise_mergeSort
    · intro a b c hab hbc
      simp only [Bool.not_eq_true', decide_eq_false_iff_not, not_lt] at hab hbc ⊢
      exact le_trans hab hbc
    · intro a b
      simp only [Bool.or_eq_true, Bool.not_eq_true', decide_eq_false_iff_not, not_lt]
      exact le_total a b
  -- equal neighbours are ruled out, so the order is strict
  have hnodup : (sorted addresses).Nodup := (List.mergeSort_perm addresses _).nodup_iff.mpr h
  apply (hsorted.and hnodup).imp
  rintro a b ⟨hle, hne⟩
  simp only [Bool.not_eq_true', decide_eq_false_iff_not, not_lt] at hle
  exact lt_of_le_of_ne hle hne

/-! ## §2 Any relative pattern -/

/-- Whether an address leads to a file that tokens match. -/
def IsMatch (node : Node) (tokens : List Glob.Token) (address : Address) : Prop :=
  (∃ content, node.at? address = some (.file content))
    ∧ Glob.matchesPath tokens ("/".intercalate address) = true

/-- Whether the start and the depth of a search let it see an address that its pattern matches. -/
structure Sees (root pattern : String) (address : Address) : Prop where
  /-- The start is not too long for a path. -/
  short : (startOf root pattern).utf8ByteSize < FileSystem.pathLimit
  /-- The literal names are read as they are spelled. -/
  spelled : ∀ name ∈ literalNames pattern, '\\' ∉ name.toList
  /-- The address has no more names than the pattern, unless one of those is two stars. -/
  deep : "**" ∈ plainNames pattern ∨ address.length ≤ (plainNames pattern).length

section

variable {files : FileSystem} {root pattern : String} {node : Node} {tokens : List Glob.Token}

theorem isAbsolute_dropDotSteps (h : Path.isAbsolute pattern = false) :
    Path.isAbsolute (dropDotSteps pattern) = false :=
  (isAbsolute_dropDotSteps_eq pattern).trans h

theorem ne_nil_of_isMatch {address : Address} (hdirectory : node.isDirectory = true)
    (h : IsMatch node tokens address) : address ≠ [] := by
  rintro rfl
  obtain ⟨⟨content, hfile⟩, -⟩ := h
  obtain rfl := Option.some.inj hfile
  cases hdirectory

/-- A matched address consists of names, and has at least one. -/
theorem isName_of_isMatch {address : Address} (hground : Ground files root node)
    (h : IsMatch node tokens address) : (∀ name ∈ address, IsName name) ∧ address ≠ [] := by
  have hne := ne_nil_of_isMatch hground.directory h
  obtain ⟨⟨content, hfile⟩, -⟩ := h
  exact ⟨isName_of_at? (Node.isNamed_of_isOrdinary node hground.ordinary) hfile, hne⟩

theorem plainNames_ne_nil {names : List String} (hrelative : Path.isAbsolute pattern = false)
    (hparse : Glob.parse pattern = .ok tokens) (hnames : ∀ name ∈ names, IsName name)
    (hne : names ≠ []) (hpath : Glob.matchesPath tokens ("/".intercalate names) = true) :
    plainNames pattern ≠ [] := by
  have hpattern := Glob.ne_empty_of_matchesPath hparse hnames hne hpath
  have hlength := Glob.length_plainNames_of_relative hpattern hrelative
  intro hnil
  rw [hnil] at hlength
  cases hlength

/-- What the start leads to is where an address that is seen goes through. -/
theorem exists_append_of_sees {address : Address} (hground : Ground files root node)
    (hparse : Glob.parse pattern = .ok tokens) (hmatch : IsMatch node tokens address)
    (hsees : Sees root pattern address) :
    ∃ names, names ≠ [] ∧ address = literalNames pattern ++ names := by
  obtain ⟨hnames, hne⟩ := isName_of_isMatch hground hmatch
  obtain ⟨hlonger, hprefix⟩ := literalNames_isPrefix_iff hparse hnames hne hmatch.2
  obtain ⟨names, rfl⟩ := hprefix.mpr hsees.spelled
  -- the pattern goes on behind its literal names, and so does the address
  refine ⟨names, ?_, rfl⟩
  rintro rfl
  simp at hlonger

/-- The files below the start that are found, seen from the start. -/
def tails (pattern : String) (tokens : List Glob.Token) (found : Node) : List Address :=
  (found.filesBelow (descent pattern).depth?).filter fun names =>
    Glob.matchesPath tokens ("/".intercalate (literalNames pattern ++ names))

/-- The files that are found below the start are the matched ones that are seen. -/
theorem mem_tails_iff {found : Node} (hground : Ground files root node)
    (hrelative : Path.isAbsolute pattern = false) (hparse : Glob.parse pattern = .ok tokens)
    (hshort : (startOf root pattern).utf8ByteSize < FileSystem.pathLimit)
    (hfound : node.at? (literalNames pattern) = some found) (names : List String) :
    names ∈ tails pattern tokens found ↔
      names ≠ [] ∧ IsMatch node tokens (literalNames pattern ++ names)
        ∧ Sees root pattern (literalNames pattern ++ names) := by
  obtain ⟨-, hordinary⟩ := Node.isOrdinary_of_at? hground.ordinary hfound
  -- what stands below the start stands in the whole tree behind the literal names
  have hat : node.at? (literalNames pattern ++ names) = found.at? names := by
    rw [Node.at?_append, hfound]
    rfl
  rw [tails, List.mem_filter,
    Node.mem_filesBelow found (Node.isNamed_of_isOrdinary found hordinary)]
  constructor
  · rintro ⟨⟨hne, hreaches, content, hfile⟩, hpath⟩
    have hmatch : IsMatch node tokens (literalNames pattern ++ names) :=
      ⟨⟨content, hat.trans hfile⟩, hpath⟩
    obtain ⟨hnames, hfull⟩ := isName_of_isMatch hground hmatch
    have hplain := plainNames_ne_nil hrelative hparse hnames hfull hpath
    have hprefix := (literalNames_isPrefix_iff hparse hnames hfull hpath).2
    refine ⟨hne, hmatch, hshort, ?_, ?_⟩
    · exact hprefix.mp (List.prefix_append _ _)
    · exact (reaches_descent hplain names).mp hreaches
  · rintro ⟨hne, hmatch, hsees⟩
    obtain ⟨hnames, hfull⟩ := isName_of_isMatch hground hmatch
    obtain ⟨⟨content, hfile⟩, hpath⟩ := hmatch
    have hplain := plainNames_ne_nil hrelative hparse hnames hfull hpath
    have hreaches := (reaches_descent hplain names).mpr hsees.deep
    exact ⟨⟨hne, hreaches, content, hat.symm.trans hfile⟩, hpath⟩

/-- Below the start, a search lists what the glob matches from the root. -/
theorem listed_eq_tails {found : Node} (hrelative : Path.isAbsolute pattern = false)
    (hnode : files.node? (startOf root (dropDotSteps pattern)) = .ok found)
    (hordinary : found.isOrdinary = true) :
    listed files root pattern tokens = tails (dropDotSteps pattern) tokens found := by
  rw [listed, walkStart_of_relative root hrelative, isAbsolute_dropDotSteps hrelative, matching,
    hnode]
  apply List.filter_congr
  intro names hnames
  have hnamed := Node.isNamed_of_isOrdinary found hordinary
  obtain ⟨hne, -, content, hfile⟩ := (Node.mem_filesBelow found hnamed).mp hnames
  have hnames := isName_of_at? hnamed hfile
  rw [candidate?_start (forall_isSegment hnames) hne (head?_append_ne_dot hrelative hnames)]
  rfl

theorem exists_of_isDirectory {path : String} (h : files.isDirectory path = true) :
    ∃ entries, files.node? path = .ok (.directory entries) := by
  unfold FileSystem.isDirectory at h
  split at h
  · rename_i entries hnode
    exact ⟨entries, hnode⟩
  · cases h

/-- What stands above another place is a directory. -/
theorem exists_directory_of_at? {front names : List String} {found : Node} (hne : names ≠ [])
    (h : node.at? (front ++ names) = some found) :
    ∃ entries, node.at? front = some (.directory entries) := by
  -- only below a directory does a further name lead anywhere
  obtain ⟨name, rest, rfl⟩ := List.exists_cons_of_ne_nil hne
  rw [Node.at?_append] at h
  obtain ⟨above, habove, hbelow⟩ := Option.bind_eq_some_iff.mp h
  cases above with
  | file content => cases hbelow
  | link target => cases hbelow
  | directory entries => exact ⟨entries, habove⟩

/-- The tails behind the literal names, in the order of their names. -/
def addressesBelow (pattern : String) (tokens : List Glob.Token) (found : Node) : List Address :=
  (sorted (tails pattern tokens found)).map (literalNames pattern ++ ·)

theorem mem_addressesBelow_iff {found : Node} (hground : Ground files root node)
    (hrelative : Path.isAbsolute pattern = false) (hparse : Glob.parse pattern = .ok tokens)
    (hshort : (startOf root pattern).utf8ByteSize < FileSystem.pathLimit)
    (hfound : node.at? (literalNames pattern) = some found) (address : Address) :
    address ∈ addressesBelow pattern tokens found ↔
      IsMatch node tokens address ∧ Sees root pattern address := by
  have htails := mem_tails_iff hground hrelative hparse hshort hfound
  rw [addressesBelow, List.mem_map]
  constructor
  · rintro ⟨names, hmem, rfl⟩
    exact ((htails names).mp (mem_sorted.mp hmem)).2
  · rintro ⟨hmatch, hsees⟩
    obtain ⟨names, hne, rfl⟩ := exists_append_of_sees hground hparse hmatch hsees
    exact ⟨names, mem_sorted.mpr ((htails names).mpr ⟨hne, hmatch, hsees⟩), rfl⟩

/-- No file is listed twice, so the order of the names is strict. -/
theorem pairwise_addressesBelow {found : Node} (hordinary : found.isOrdinary = true) :
    (addressesBelow pattern tokens found).Pairwise (· < ·) := by
  have hnodup : (tails pattern tokens found).Nodup :=
    (Node.nodup_filesBelow found (Node.isNamed_of_isOrdinary found hordinary)).filter _
  exact List.Pairwise.map _ (fun _ _ => List.append_left_lt) (pairwise_sorted hnodup)

/-- The paths that are found begin with the start, which is the root and the literal names. -/
theorem map_pathBelow_startOf {found : Node} (hordinary : found.isOrdinary = true) :
    (sorted (tails pattern tokens found)).map (pathBelow (startOf root pattern)) =
      (addressesBelow pattern tokens found).map (pathBelow root) := by
  rw [addressesBelow, List.map_map]
  apply List.map_congr_left
  intro names hmem
  have hlisted := (List.mem_filter.mp (mem_sorted.mp hmem)).1
  have hnamed := Node.isNamed_of_isOrdinary found hordinary
  obtain ⟨hne, -, content, hfile⟩ := (Node.mem_filesBelow found hnamed).mp hlisted
  exact pathBelow_start (forall_isSegment (isName_of_at? hnamed hfile)) hne

/-- Where the start leads to no directory, there is no match that could be seen below it. -/
theorem not_sees_of_isDirectory_eq_false {address : Address} (hground : Ground files root node)
    (hdots : HasNoDots pattern) (hparse : Glob.parse pattern = .ok tokens)
    (hmissing : files.isDirectory (startOf root pattern) = false)
    (hmatch : IsMatch node tokens address) : ¬ Sees root pattern address := by
  intro hsees
  obtain ⟨names, hne, rfl⟩ := exists_append_of_sees hground hparse hmatch hsees
  obtain ⟨⟨content, hfile⟩, -⟩ := hmatch
  have hfault := pathFault?_start hground hfile hsees.short
  obtain ⟨entries, hat⟩ := exists_directory_of_at? hne hfile
  have hnode := (node?_start hground hdots rfl).mpr ⟨hfault, hat⟩
  rw [FileSystem.isDirectory, hnode] at hmissing
  cases hmissing

/-- Which files a search finds for a relative pattern: those that the glob matches and that the
start and the depth let it see, in the order of their names. -/
theorem matchingPaths_eq (hground : Ground files root node)
    (hrelative : Path.isAbsolute pattern = false) (hdots : HasNoDots (dropDotSteps pattern))
    (hparse : Glob.parse (dropDotSteps pattern) = .ok tokens) :
    ∃ (events : List Log.Event) (addresses : List Address),
      matchingPaths files root pattern = .ok (events, addresses.map (pathBelow root))
        ∧ addresses.Pairwise (· < ·)
        ∧ ∀ address, address ∈ addresses ↔
          IsMatch node tokens address ∧ Sees root (dropDotSteps pattern) address := by
  have habsolute := isAbsolute_dropDotSteps hrelative
  obtain ⟨events, hpaths⟩ := @matchingPaths_of_parse files root pattern tokens hparse
  have hstart := walkStart_of_relative root hrelative
  rw [hpaths, hstart]
  -- where the walk starts is a directory of the tree, or nothing that matches is seen from it
  cases hdirectory : files.isDirectory (startOf root (dropDotSteps pattern)) with
  | true =>
    obtain ⟨entries, hnode⟩ := exists_of_isDirectory hdirectory
    obtain ⟨hfault, hfound⟩ := (node?_start hground hdots rfl).mp hnode
    obtain ⟨-, -, hshort⟩ := FileSystem.pathFault?_eq_none_iff.mp hfault
    obtain ⟨-, hordinary⟩ := Node.isOrdinary_of_at? hground.ordinary hfound
    refine ⟨events, addressesBelow (dropDotSteps pattern) tokens (.directory entries), ?_,
      pairwise_addressesBelow hordinary, ?_⟩
    · rw [listed_eq_tails hrelative hnode hordinary, map_pathBelow_startOf hordinary]
    · exact mem_addressesBelow_iff hground habsolute hparse hshort hfound
  | false =>
    have hnone : listed files root pattern tokens = [] := by
      apply listed_eq_nil
      rw [hstart]
      exact hdirectory
    refine ⟨events, [], by simp [hnone, sorted], List.Pairwise.nil, ?_⟩
    intro address
    constructor
    · intro hmem
      cases hmem
    · rintro ⟨hmatch, hsees⟩
      exact absurd hsees (not_sees_of_isDirectory_eq_false hground hdots hparse hdirectory hmatch)

end

end UpdateFeed.Signature
