import UpdateFeed.Proofs.Signature.Start

/-!
# Steps before a pattern

A pattern may be written with steps `./` before it, each with any number of slashes behind it.  They
are dropped before anything else is done with the pattern, and what is left is absolute exactly when
the pattern as written begins with a slash.

- `dropDotSteps_append`: steps before a relative pattern are dropped with all their slashes.
- `walkRoot_eq_top_iff`: which patterns are looked for from the top of the tree.
- `matchingPaths_of_parse`: what a search finds for a pattern that can be read.
- `search_withSteps`: steps before a relative pattern play no part in a search.
-/

namespace UpdateFeed.Signature

open UpdateFeed.Path (IsName)

/-! ## §1 Dropped steps -/

/-- Steps `./`, each with so many slashes behind it. -/
def dotSteps (slashes : List Nat) : List Char :=
  slashes.flatMap fun count => '.' :: '/' :: List.replicate count '/'

theorem dotSteps_cons (count : Nat) (slashes : List Nat) :
    dotSteps (count :: slashes) = '.' :: '/' :: List.replicate count '/' ++ dotSteps slashes := rfl

/-- Steps begin with a dot, so there is a slash at the start only if one follows them. -/
theorem head?_dotSteps_append {slashes : List Nat} {rest : List Char}
    (h : rest.head? ≠ some '/') : (dotSteps slashes ++ rest).head? ≠ some '/' := by
  cases slashes with
  | nil => exact h
  | cons count slashes => simp [dotSteps_cons]

theorem dropWhile_slashes (count : Nat) {rest : List Char} (h : rest.head? ≠ some '/') :
    (List.replicate count '/' ++ rest).dropWhile (· = '/') = rest := by
  induction count with
  | zero =>
    cases rest with
    | nil => rfl
    | cons c rest =>
      have hc : c ≠ '/' := by simpa using h
      simp [hc]
  | succ count ih => simpa [List.replicate_succ] using ih

/-- As long as it is not smaller than the pattern, the bound plays no part. -/
theorem dropDotStepsChars_congr {bound other : Nat} {chars : List Char}
    (h : chars.length ≤ bound) (hother : chars.length ≤ other) :
    dropDotStepsChars bound chars = dropDotStepsChars other chars := by
  fun_induction dropDotStepsChars bound chars generalizing other with
  | case1 bound rest ih =>
    have hshorter := (List.dropWhile_suffix (· = '/') (l := rest)).length_le
    simp only [List.length_cons] at h hother
    obtain ⟨fewer, rfl⟩ : ∃ fewer, other = fewer + 1 := ⟨other - 1, by omega⟩
    rw [dropDotStepsChars]
    apply ih
    · omega
    · omega
  | case2 bound chars hnone =>
    unfold dropDotStepsChars
    split
    · -- a pattern that begins with a step is not empty, and so its bound is not zero
      rename_i rest
      simp only [List.length_cons] at h
      exact (hnone (bound - 1) rest (by omega) rfl).elim
    · rfl

theorem dropDotStepsChars_dotSteps (slashes : List Nat) {rest : List Char}
    (h : rest.head? ≠ some '/') :
    dropDotStepsChars (dotSteps slashes ++ rest).length (dotSteps slashes ++ rest) =
      dropDotStepsChars rest.length rest := by
  induction slashes with
  | nil => rfl
  | cons count slashes ih =>
    have hstep : dotSteps (count :: slashes) ++ rest =
        '.' :: '/' :: (List.replicate count '/' ++ (dotSteps slashes ++ rest)) := by
      simp [dotSteps_cons]
    rw [hstep, List.length_cons, dropDotStepsChars,
      dropWhile_slashes count (head?_dotSteps_append h), ← ih]
    apply dropDotStepsChars_congr
    · simp
      omega
    · exact le_rfl

/-- Steps before a pattern are dropped with the slashes behind them, and no more of it is dropped
than without them. -/
theorem dropDotSteps_append {pattern : String} (slashes : List Nat)
    (h : pattern.toList.head? ≠ some '/') :
    dropDotSteps (String.ofList (dotSteps slashes) ++ pattern) = dropDotSteps pattern := by
  have hdrop := dropDotStepsChars_dotSteps slashes h
  rw [dropDotSteps, dropDotSteps, String.toList_append, String.toList_ofList,
    ← String.length_toList, String.toList_append, String.toList_ofList, hdrop, String.length_toList]

/-- What is left of a pattern begins with a slash exactly when the pattern does. -/
theorem isAbsolute_dropDotSteps_eq (pattern : String) :
    Path.isAbsolute (dropDotSteps pattern) = Path.isAbsolute pattern := by
  have hhead : ∀ (bound : Nat) (chars : List Char),
      (dropDotStepsChars bound chars).head? = some '/' ↔ chars.head? = some '/' := by
    intro bound chars
    fun_induction dropDotStepsChars bound chars with
    | case1 bound rest ih =>
      -- the slashes behind the step are dropped with it
      have hnot := List.head?_dropWhile_not (fun c => decide (c = '/')) rest
      have hrest : (rest.dropWhile (· = '/')).head? ≠ some '/' := by
        intro hslash
        rw [hslash] at hnot
        simp at hnot
      simp [ih, hrest]
    | case2 => exact Iff.rfl
  rw [Bool.eq_iff_iff]
  simpa [Path.isAbsolute, dropDotSteps] using hhead pattern.length pattern.toList

theorem dropDotStepsChars_ne_step {bound : Nat} {chars : List Char} (h : chars.length ≤ bound)
    (rest : List Char) : dropDotStepsChars bound chars ≠ '.' :: '/' :: rest := by
  fun_induction dropDotStepsChars bound chars with
  | case1 bound inner ih =>
    have hshorter := (List.dropWhile_suffix (· = '/') (l := inner)).length_le
    simp only [List.length_cons] at h
    apply ih
    omega
  | case2 bound chars hnone =>
    rintro rfl
    simp only [List.length_cons] at h
    exact hnone (bound - 1) rest (by omega) rfl

/-- What is left of a relative pattern has no step `.` as the first of its literal names. -/
theorem head?_literalNames_ne_dot {pattern : String} (h : Path.isAbsolute pattern = false) :
    (literalNames (dropDotSteps pattern)).head? ≠ some "." := by
  intro hhead
  have hnames : literalNames (dropDotSteps pattern) ≠ [] := by
    intro hnil
    rw [hnil] at hhead
    cases hhead
  obtain ⟨pieces, rest, hpattern, hne, -, hpieces⟩ := exists_pieces hnames
  obtain ⟨first, others, rfl⟩ := List.exists_cons_of_ne_nil hne
  obtain ⟨more, hmore⟩ : ∃ more,
      ['/'].intercalate (first :: others) ++ '/' :: rest = first ++ '/' :: more := by
    cases others with
    | nil => exact ⟨rest, by simp⟩
    | cons second others =>
      refine ⟨['/'].intercalate (second :: others) ++ '/' :: rest, ?_⟩
      simp [List.intercalate_cons_cons]
  rw [hmore] at hpattern
  by_cases hfirst : first = []
  · -- a relative pattern does not begin with a slash
    have habsolute := isAbsolute_dropDotSteps_eq pattern
    rw [h, Path.isAbsolute, hpattern, hfirst] at habsolute
    cases habsolute
  · rw [hpieces, List.filter_cons_of_pos (by simpa using hfirst), List.map_cons, List.head?_cons,
      Option.some.injEq] at hhead
    -- the pattern would begin with the step `./`
    have hdot : first = ['.'] := by
      rw [← String.toList_ofList (l := first), hhead]
      rfl
    rw [hdot, dropDotSteps, String.toList_ofList] at hpattern
    exact dropDotStepsChars_ne_step (by rw [String.length_toList]) more hpattern

/-- What a relative pattern finds is at no path that begins with the step `.`. -/
theorem head?_append_ne_dot {pattern : String} {names : List String}
    (hrelative : Path.isAbsolute pattern = false) (hnames : ∀ name ∈ names, IsName name) :
    (literalNames (dropDotSteps pattern) ++ names).head? ≠ some "." := by
  rw [List.head?_append]
  cases hfirst : (literalNames (dropDotSteps pattern)).head? with
  | some name =>
    rw [Option.some_or, ← hfirst]
    exact head?_literalNames_ne_dot hrelative
  | none =>
    intro hhead
    exact (hnames "." (List.mem_of_head? hhead)).2.1 rfl

/-! ## §2 Searches -/

/-- What a pattern is looked for below: the top of the tree or the root. -/
def walkRoot (root pattern : String) : String :=
  if Path.isAbsolute (dropDotSteps pattern) then "/" else root

theorem walkRoot_eq (root pattern : String) :
    walkRoot root pattern = if Path.isAbsolute pattern then "/" else root := by
  rw [walkRoot, isAbsolute_dropDotSteps_eq]

/-- Where a search for a pattern starts. -/
def walkStart (root pattern : String) : String :=
  startOf (walkRoot root pattern) (dropDotSteps pattern)

theorem walkStart_of_relative (root : String) {pattern : String}
    (h : Path.isAbsolute pattern = false) :
    walkStart root pattern = startOf root (dropDotSteps pattern) := by
  simp [walkStart, walkRoot_eq, h]

/-- The addresses below its start that a search lists for a pattern with these tokens. -/
def listed (files : FileSystem) (root pattern : String) (tokens : List Glob.Token) :
    List Address :=
  matching files root (walkStart root pattern) (Path.isAbsolute (dropDotSteps pattern))
    (descent (dropDotSteps pattern)).depth? tokens

/-- Whatever the root is, a pattern is looked for from the top of the tree exactly when its first
character is a slash. -/
theorem walkRoot_eq_top_iff (pattern : String) :
    (∀ root, walkRoot root pattern = "/") ↔ pattern.toList.head? = some '/' := by
  have habsolute : pattern.toList.head? = some '/' ↔ Path.isAbsolute pattern = true := by
    simp [Path.isAbsolute]
  simp only [walkRoot_eq]
  rw [habsolute]
  constructor
  · intro htop
    -- the empty root is not the top of the tree
    by_contra hrelative
    have hempty := htop ""
    rw [if_neg hrelative] at hempty
    exact absurd hempty (by simp)
  · intro hpattern root
    rw [if_pos hpattern]

/-- Nothing is listed where no directory is. -/
theorem listed_eq_nil {files : FileSystem} {root pattern : String} {tokens : List Glob.Token}
    (h : files.isDirectory (walkStart root pattern) = false) :
    listed files root pattern tokens = [] := by
  unfold listed matching
  unfold FileSystem.isDirectory at h
  cases hnode : files.node? (walkStart root pattern) with
  | error fault => rfl
  | ok node =>
    rw [hnode] at h
    cases node with
    | file content => simp [Node.filesBelow]
    | link target => simp [Node.filesBelow]
    | directory entries => cases h

/-- What a search finds for a pattern that can be read. -/
theorem matchingPaths_of_parse {files : FileSystem} {root pattern : String}
    {tokens : List Glob.Token} (hparse : Glob.parse (dropDotSteps pattern) = .ok tokens) :
    ∃ events, matchingPaths files root pattern =
      .ok (events, (sorted (listed files root pattern tokens)).map
        (pathBelow (walkStart root pattern))) := by
  have hstart : walkStart root pattern =
      Path.join (if Path.isAbsolute (dropDotSteps pattern) then "/" else root)
        (descent (dropDotSteps pattern)).base := rfl
  unfold matchingPaths
  dsimp only
  rw [hparse, ← hstart]
  dsimp only
  by_cases hdirectory : files.isDirectory (walkStart root pattern) = true
  · rw [hdirectory]
    exact ⟨_, rfl⟩
  · rw [Bool.not_eq_true] at hdirectory
    -- a start that is no directory has no files to list
    have hnone : sorted (listed files root pattern tokens) = [] := by
      simp [listed_eq_nil hdirectory, sorted]
    rw [hdirectory, hnone]
    exact ⟨_, rfl⟩

/-- A search looks at nothing of its pattern but what is left of it. -/
theorem search_congr {files : FileSystem} {root pattern other : String}
    (h : dropDotSteps pattern = dropDotSteps other) :
    search files root pattern = search files root other := by
  unfold search matchingPaths
  rw [h]

/-- Steps before a pattern that does not begin with a slash change nothing of a search, neither its
reports nor its answer; and of all patterns, those that begin with a slash are the ones that are
walked from the top of the tree. -/
theorem search_withSteps (files : FileSystem) (root pattern : String) (slashes : List Nat)
    (hpattern : pattern.toList.head? ≠ some '/') :
    search files root (String.ofList (dotSteps slashes) ++ pattern) = search files root pattern
      ∧ ∀ other : String,
        ((∀ root, walkRoot root other = "/") ↔ other.toList.head? = some '/')
          ∧ (∃ below, Path.isAbsolute below = false
            ∧ walkStart root other = Path.join (walkRoot root other) below)
          ∧ ∀ tokens, Glob.parse (dropDotSteps other) = .ok tokens →
            ∃ events, matchingPaths files root other =
              .ok (events, (sorted (listed files root other tokens)).map
                (pathBelow (walkStart root other))) := by
  refine ⟨search_congr (dropDotSteps_append slashes hpattern), ?_⟩
  intro other
  refine ⟨walkRoot_eq_top_iff other, ⟨_, isAbsolute_base (dropDotSteps other), rfl⟩, ?_⟩
  intro tokens hparse
  exact matchingPaths_of_parse hparse

theorem search_withSteps_sample :
    ".s/?".toList.head? ≠ some '/'
      ∧ search ⟨.directory [(".s", .directory [("x", .file "t".toUTF8)])], []⟩ "/" "././/.s/?" =
        search ⟨.directory [(".s", .directory [("x", .file "t".toUTF8)])], []⟩ "/" ".s/?" := by
  have hpattern : ".s/?".toList.head? ≠ some '/' := by simp
  have hsteps : "././/.s/?" = String.ofList (dotSteps [0, 1]) ++ ".s/?" := by decide +kernel
  rw [hsteps]
  exact ⟨hpattern, (search_withSteps _ "/" ".s/?" [0, 1] hpattern).1⟩

end UpdateFeed.Signature
