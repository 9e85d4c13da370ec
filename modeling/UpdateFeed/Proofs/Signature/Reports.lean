import UpdateFeed.Proofs.FileTree.Relisting
import UpdateFeed.Proofs.Path.Order
import UpdateFeed.Proofs.Signature.Considered

/-!
# What a search reports

A search reports paths of regular files below its start, in the order of paths, and for a single one
the text of the file.  There may be links in the tree: the start may be reached through them, but no
link below the start is followed or reported.  The order in which directories list their entries
plays no part, since the paths are sorted.

- `IsReport`: what is known of a reported path.
- `isReport_of_mem_listed`, `pairwise_precedes`: the reported paths, and their order.
- `search_relisted`: the answer for directories that are listed in another order.
- `search_of_isAbsolute`: the answer for an absolute pattern, whatever the root is.
- `search_reports`: all of these, for every pattern that can be read.
-/

namespace UpdateFeed.Signature

open UpdateFeed.Path (IsName IsSegment forall_isSegment plainNames)

/-! ## §1 Answers -/

/-- The paths that a finding has. -/
def Finding.paths : Finding → List String
  | .single path _ => [path]
  | .nothing => []
  | .several paths => paths

/-- The answer of a search that has found some paths. -/
def answer (files : FileSystem) : List String → Except SignatureFault Finding
  | [] => .ok .nothing
  | [path] =>
    match files.readText path with
    | .error fault => .error (.unreadable path fault)
    | .ok text => .ok (.single path text)
  | paths => .ok (.several paths)

section

variable {files : FileSystem} {root pattern : String} {tokens : List Glob.Token}

theorem search_eq_answer {events : List Log.Event} {paths : List String}
    (h : matchingPaths files root pattern = .ok (events, paths)) :
    (search files root pattern).2 = answer files paths := by
  unfold search
  rw [h]
  cases paths with
  | nil => rfl
  | cons path paths =>
    cases paths with
    | nil =>
      simp only [answer]
      cases files.readText path <;> rfl
    | cons second paths => rfl

/-- A finding has the paths that were found. -/
theorem paths_of_answer {paths : List String} {finding : Finding}
    (h : answer files paths = .ok finding) : finding.paths = paths := by
  unfold answer at h
  split at h
  · obtain rfl := Except.ok.inj h
    rfl
  · split at h
    · cases h
    · obtain rfl := Except.ok.inj h
      rfl
  · obtain rfl := Except.ok.inj h
    rfl

/-- The text of a single finding is what is read at its path. -/
theorem readText_of_answer {paths : List String} {path text : String}
    (h : answer files paths = .ok (.single path text)) : files.readText path = .ok text := by
  unfold answer at h
  split at h
  · cases h
  · split at h
    · cases h
    · rename_i hread
      cases h
      exact hread
  · cases h

/-- Several paths are at least two. -/
theorem two_le_of_answer {paths several : List String}
    (h : answer files paths = .ok (.several several)) : 2 ≤ several.length := by
  unfold answer at h
  split at h
  · cases h
  · split at h <;> cases h
  · rename_i hnil hone
    cases h
    cases paths with
    | nil => exact absurd rfl hnil
    | cons path paths =>
      cases paths with
      | nil => exact absurd rfl (hone path)
      | cons second paths => simp

/-- A search answers with what it lists, in the order of the names. -/
theorem search_answer (hparse : Glob.parse (dropDotSteps pattern) = .ok tokens) :
    (search files root pattern).2 =
      answer files ((sorted (listed files root pattern tokens)).map
        (pathBelow (walkStart root pattern))) := by
  obtain ⟨events, hpaths⟩ := matchingPaths_of_parse hparse
  exact search_eq_answer hpaths

/-! ## §2 Listed files -/

/-- Where no name stands twice, no file is listed twice. -/
theorem nodup_listed (hnamed : files.tree.isNamed = true) :
    (listed files root pattern tokens).Nodup := by
  unfold listed matching
  cases hnode : files.node? (walkStart root pattern) with
  | error fault => exact List.nodup_nil
  | ok node =>
    exact (Node.nodup_filesBelow node (FileSystem.isNamed_of_node? hnamed hnode)).filter _

/-- What is listed is a file below the start, and its path is matched as it is compared. -/
theorem exists_of_mem_listed {address : Address} (hnamed : files.tree.isNamed = true)
    (hmem : address ∈ listed files root pattern tokens) :
    ∃ node content compared, files.node? (walkStart root pattern) = .ok node
      ∧ node.isNamed = true ∧ address ≠ [] ∧ node.at? address = some (.file content)
      ∧ candidate? root (Path.isAbsolute pattern)
        (pathBelow (walkStart root pattern) address) = some compared
      ∧ Glob.matchesPath tokens compared = true := by
  unfold listed matching at hmem
  cases hnode : files.node? (walkStart root pattern) with
  | error fault =>
    rw [hnode] at hmem
    cases hmem
  | ok node =>
    rw [hnode] at hmem
    have hnodeNamed := FileSystem.isNamed_of_node? hnamed hnode
    obtain ⟨hlisted, hmatch⟩ := List.mem_filter.mp hmem
    obtain ⟨hne, -, content, hfile⟩ := (Node.mem_filesBelow node hnodeNamed).mp hlisted
    rw [isAbsolute_dropDotSteps_eq] at hmatch
    obtain ⟨compared, hcompared, hpath⟩ := (Option.any_eq_true _ _).mp hmatch
    exact ⟨node, content, compared, rfl, hnodeNamed, hne, hfile, hcompared, hpath⟩

end

/-- What is known of a reported path and of the content of its file. -/
structure IsReport (files : FileSystem) (root pattern : String) (tokens : List Glob.Token)
    (path : String) (content : ByteArray) : Prop where
  /-- It is that of a regular file below the start, with no link on the way. -/
  below : ∃ node address, files.node? (walkStart root pattern) = .ok node ∧ address ≠ []
    ∧ node.at? address = some (.file content)
    ∧ path = pathBelow (walkStart root pattern) address
  /-- For a relative pattern, the glob matches it as it is seen from the root. -/
  relative : Path.isAbsolute pattern = false → ∃ seen, Path.isAbsolute seen = false
    ∧ path = Path.join root seen ∧ Path.relativeTo? root path = some seen
    ∧ Glob.matchesPath tokens seen = true
  /-- For an absolute pattern, the glob matches it as it is seen from the top. -/
  absolute : Path.isAbsolute pattern = true →
    Path.isAbsolute path = true ∧ Glob.matchesPath tokens path = true

section

variable {files : FileSystem} {root pattern : String} {tokens : List Glob.Token} {node : Node}

/-- A path below the start is one below what the pattern is looked for below. -/
theorem pathBelow_walkStart {names : List String} (hnames : ∀ name ∈ names, IsSegment name)
    (hne : names ≠ []) :
    pathBelow (walkStart root pattern) names =
      Path.join (walkRoot root pattern)
        ("/".intercalate (literalNames (dropDotSteps pattern) ++ names)) := by
  rw [walkStart, pathBelow_start hnames hne]
  exact pathBelow_eq (isSegment_of_mem_append hnames) (by simp [hne])

/-- What is listed is reported. -/
theorem isReport_of_mem_listed {address : Address} (hnamed : files.tree.isNamed = true)
    (hmem : address ∈ listed files root pattern tokens) :
    ∃ content, IsReport files root pattern tokens
      (pathBelow (walkStart root pattern) address) content := by
  obtain ⟨node, content, compared, hnode, hnodeNamed, hne, hfile, hcompared, hmatch⟩ :=
    exists_of_mem_listed hnamed hmem
  have hnames := forall_isSegment (isName_of_at? hnodeNamed hfile)
  have hall := @isSegment_of_mem_append (dropDotSteps pattern) address hnames
  have hseen := Path.isAbsolute_intercalate hall
  have hpath := @pathBelow_walkStart root pattern address hnames hne
  refine ⟨content, ⟨node, address, hnode, hne, hfile, rfl⟩, ?_, ?_⟩
  · -- a relative pattern is compared with the path from the root, which is the one the walk joined
    intro hrelative
    have hroot : walkRoot root pattern = root := by simp [walkRoot_eq, hrelative]
    rw [hroot] at hpath
    have hdot := head?_append_ne_dot hrelative (isName_of_at? hnodeNamed hfile)
    have hrelativeTo := @Path.relativeTo?_join root _ hall (by simp [hne]) hdot
    rw [← hpath] at hrelativeTo
    rw [hrelative, candidate?, if_neg Bool.false_ne_true, hrelativeTo] at hcompared
    obtain rfl := Option.some.inj hcompared
    exact ⟨_, hseen, hpath, hrelativeTo, hmatch⟩
  · intro habsolute
    have hroot : walkRoot root pattern = "/" := by simp [walkRoot_eq, habsolute]
    rw [habsolute, candidate?, if_pos rfl] at hcompared
    obtain rfl := Option.some.inj hcompared
    refine ⟨?_, hmatch⟩
    rw [hpath, hroot, Path.isAbsolute_join hseen (by simp)]
    rfl

/-- The text that is read at a reported path is the whole of the file. -/
theorem eq_toUTF8_of_readText {path text : String} {content : ByteArray}
    (hnamed : files.tree.isNamed = true) (h : IsReport files root pattern tokens path content)
    (hread : files.readText path = .ok text) : content = text.toUTF8 := by
  obtain ⟨node, address, hnode, hne, hfile, rfl⟩ := h.below
  have hnodeNamed := FileSystem.isNamed_of_node? hnamed hnode
  have hnames := forall_isSegment (isName_of_at? hnodeNamed hfile)
  rw [pathBelow_eq hnames hne, FileSystem.readText_eq_ok_iff,
    FileSystem.readBytes_eq_ok_iff] at hread
  have hpath := (FileSystem.node?_eq_ok_iff.mp hread).1
  have hfound := FileSystem.node?_join_file hnode hnodeNamed hne hfile hpath
  rw [hread] at hfound
  exact (Node.file.inj (Except.ok.inj hfound)).symm

/-! ## §3 Order -/

/-- The paths that are found are in strict order. -/
theorem pairwise_precedes (hnamed : files.tree.isNamed = true) :
    ((sorted (listed files root pattern tokens)).map
      (pathBelow (walkStart root pattern))).Pairwise Path.Precedes := by
  rw [List.pairwise_map]
  apply List.Pairwise.imp_of_mem _ (pairwise_sorted (nodup_listed hnamed))
  intro first second hfirst hsecond hlt
  obtain ⟨node, content, -, hnode, hnodeNamed, hne, hfile, -⟩ :=
    exists_of_mem_listed hnamed (mem_sorted.mp hfirst)
  obtain ⟨other, otherContent, -, -, hotherNamed, hotherNe, hotherFile, -⟩ :=
    exists_of_mem_listed hnamed (mem_sorted.mp hsecond)
  have hnames := isName_of_at? hnodeNamed hfile
  have hotherNames := isName_of_at? hotherNamed hotherFile
  rw [pathBelow_eq (forall_isSegment hnames) hne,
    pathBelow_eq (forall_isSegment hotherNames) hotherNe]
  exact Path.precedes_join (FileSystem.ne_empty_of_node? hnode) hnames hotherNames hlt

/-- Sorting different addresses leaves nothing of their order. -/
theorem sorted_eq_of_mem_iff {first second : List Address} (hfirst : first.Nodup)
    (hsecond : second.Nodup) (h : ∀ address, address ∈ first ↔ address ∈ second) :
    sorted first = sorted second := by
  have hperm : (sorted first).Perm (sorted second) := by
    have hunsorted := (List.perm_ext_iff_of_nodup hfirst hsecond).mpr h
    exact (List.mergeSort_perm first _).trans
      (hunsorted.trans (List.mergeSort_perm second _).symm)
  apply hperm.eq_of_pairwise _ (pairwise_sorted hfirst) (pairwise_sorted hsecond)
  intro a b _ _ hab hba
  exact absurd hba (List.lt_asymm hab)

/-- Directories that are listed in another order have the same files to list. -/
theorem mem_listed_relisted {other : FileSystem} (h : Relisted files other)
    (hnamed : files.tree.isNamed = true) (address : Address) :
    address ∈ listed other root pattern tokens ↔ address ∈ listed files root pattern tokens := by
  unfold listed matching
  rcases h.node?_cases hnamed (walkStart root pattern) with
    ⟨fault, hfiles, hother⟩ | ⟨node, relisted, hfiles, hother, hnode, hrelisted, hholding⟩
  · rw [hfiles, hother]
  · rw [hfiles, hother]
    dsimp only
    rw [List.mem_filter, List.mem_filter, Node.mem_filesBelow_congr hnode hrelisted hholding]

/-- The answer of a search does not depend on the order in which directories are listed. -/
theorem search_relisted {other : FileSystem} (h : Relisted files other)
    (hnamed : files.tree.isNamed = true) (root pattern : String) :
    (search other root pattern).2 = (search files root pattern).2 := by
  have hotherNamed : other.tree.isNamed = true := (h.tree.spec hnamed).1
  cases hparse : Glob.parse (dropDotSteps pattern) with
  | error fault =>
    unfold search matchingPaths
    dsimp only
    rw [hparse]
  | ok tokens =>
    -- the paths are sorted, so the order in which they were listed does not show
    rw [search_answer hparse, search_answer hparse,
      sorted_eq_of_mem_iff (nodup_listed hotherNamed) (nodup_listed hnamed)
        (mem_listed_relisted h hnamed)]
    unfold answer
    split
    · rfl
    · rw [h.readText hnamed]
    · rfl

/-- The root plays no part in a search for an absolute pattern. -/
theorem search_of_isAbsolute (files : FileSystem) {pattern : String}
    (h : Path.isAbsolute pattern = true) (root other : String) :
    search files other pattern = search files root pattern := by
  have hdropped : Path.isAbsolute (dropDotSteps pattern) = true :=
    (isAbsolute_dropDotSteps_eq pattern).trans h
  unfold search matchingPaths matching candidate?
  simp only [hdropped, if_true]

/-! ## §4 Reports -/

/-- A search reports regular files below its start that the glob matches: a single one with its
whole text, or several in strict order.  The answer is the same for every order in which directories
are listed, and for an absolute pattern it is the same for every root. -/
theorem search_reports (hnamed : files.tree.isNamed = true)
    (hparse : Glob.parse (dropDotSteps pattern) = .ok tokens) :
    (∀ finding, (search files root pattern).2 = .ok finding →
        (∀ path ∈ finding.paths, ∃ content, IsReport files root pattern tokens path content)
          ∧ (∀ path text, finding = .single path text →
            IsReport files root pattern tokens path text.toUTF8)
          ∧ ∀ paths, finding = .several paths →
            2 ≤ paths.length ∧ paths.Pairwise Path.Precedes ∧ paths.Nodup)
      ∧ (∀ other, Relisted files other →
        (search other root pattern).2 = (search files root pattern).2)
      ∧ (Path.isAbsolute pattern = true →
        ∀ other, search files other pattern = search files root pattern) := by
  refine ⟨?_, fun other h => search_relisted h hnamed root pattern,
    fun habsolute other => search_of_isAbsolute files habsolute root other⟩
  intro finding hfinding
  rw [search_answer hparse] at hfinding
  have hpaths := paths_of_answer hfinding
  have hreports : ∀ path ∈ finding.paths,
      ∃ content, IsReport files root pattern tokens path content := by
    rw [hpaths]
    intro path hpath
    obtain ⟨address, hmem, rfl⟩ := List.mem_map.mp hpath
    exact isReport_of_mem_listed hnamed (mem_sorted.mp hmem)
  refine ⟨hreports, ?_, ?_⟩
  · rintro path text rfl
    obtain ⟨content, hreport⟩ := hreports path (by simp [Finding.paths])
    have hread := readText_of_answer hfinding
    rw [← eq_toUTF8_of_readText hnamed hreport hread]
    exact hreport
  · rintro paths rfl
    have hsorted := @pairwise_precedes files root pattern tokens hnamed
    rw [← hpaths] at hsorted
    exact ⟨two_le_of_answer hfinding, hsorted, Path.nodup_of_pairwise_precedes hsorted⟩

end

/-- A project that is reached through a link, with a link in it. -/
def linkedFiles : FileSystem :=
  ⟨.directory
    [("q", .link "p"),
      ("p", .directory
        [("b.sig", .file "t".toUTF8), ("l", .link "b"),
          ("b", .directory [("x.sig", .file "s".toUTF8)])])], []⟩

/-- The same project, listed in another order. -/
def relinkedFiles : FileSystem :=
  ⟨.directory
    [("p", .directory
        [("b", .directory [("x.sig", .file "s".toUTF8)]), ("b.sig", .file "t".toUTF8),
          ("l", .link "b")]),
      ("q", .link "p")], []⟩

theorem relisted_linkedFiles : Relisted linkedFiles relinkedFiles := by
  have hproject : Node.Relisted
      (.directory [("b.sig", .file "t".toUTF8), ("l", .link "b"),
        ("b", .directory [("x.sig", .file "s".toUTF8)])])
      (.directory [("b", .directory [("x.sig", .file "s".toUTF8)]), ("b.sig", .file "t".toUTF8),
        ("l", .link "b")]) := by
    apply Node.Relisted.directory
    · exact .cons _ (.file _) (.cons _ (.link _)
        (.cons _ (.directory (.cons _ (.file _) .nil) (List.Perm.refl _)) .nil))
    · exact @List.perm_append_comm _ [_, _] [_]
  refine ⟨.directory (.cons _ (.link _) (.cons _ hproject .nil)) ?_, rfl⟩
  exact List.Perm.swap _ _ _

/-- Both files of the project are reported, each once; and the one in the directory comes first,
though as a text its path does not. -/
theorem search_reports_sample :
    linkedFiles.tree.isNamed = true
      ∧ (search linkedFiles "/q" "**/*.sig").2 = .ok (.several ["/q/b/x.sig", "/q/b.sig"])
      ∧ Path.Precedes "/q/b/x.sig" "/q/b.sig"
      ∧ (search relinkedFiles "/q" "**/*.sig").2 = .ok (.several ["/q/b/x.sig", "/q/b.sig"]) := by
  have hnamed : linkedFiles.tree.isNamed = true := by decide +kernel
  have hparse : Glob.parse (dropDotSteps "**/*.sig") =
      .ok (.leadingDirectories :: .zeroOrMore :: ".sig".toList.map Glob.Token.literal) := rfl
  have hlisted : listed linkedFiles "/q" "**/*.sig"
      (.leadingDirectories :: .zeroOrMore :: ".sig".toList.map Glob.Token.literal) =
        [["b.sig"], ["b", "x.sig"]] := by decide +kernel
  have hsorted : sorted [["b.sig"], ["b", "x.sig"]] = [["b", "x.sig"], ["b.sig"]] := by
    have hname : "b" < "b.sig" := by
      rw [String.lt_iff]
      decide
    have hlt : (["b", "x.sig"] : Address) < ["b.sig"] := List.Lex.rel hname
    simp [sorted, List.mergeSort, List.MergeSort.Internal.splitInTwo, hlt]
  have hpaths : [["b", "x.sig"], ["b.sig"]].map (pathBelow (walkStart "/q" "**/*.sig")) =
      ["/q/b/x.sig", "/q/b.sig"] := by decide +kernel
  have hfound : (search linkedFiles "/q" "**/*.sig").2 =
      .ok (.several ["/q/b/x.sig", "/q/b.sig"]) := by
    rw [search_answer hparse, hlisted, hsorted, hpaths]
    rfl
  obtain ⟨hfindings, hrelisted, -⟩ := search_reports hnamed hparse
  obtain ⟨-, -, hseveral⟩ := hfindings _ hfound
  obtain ⟨-, hpairwise, -⟩ := hseveral _ rfl
  refine ⟨hnamed, hfound, ?_, ?_⟩
  · exact List.rel_of_pairwise_cons hpairwise (by simp)
  · exact (hrelisted relinkedFiles relisted_linkedFiles).trans hfound

end UpdateFeed.Signature
