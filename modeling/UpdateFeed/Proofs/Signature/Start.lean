import UpdateFeed.Proofs.FileTree.Below
import UpdateFeed.Proofs.Signature.Descent

/-!
# What a search finds below its start

The start of a search is a path below the root, and what it leads to is what stands in the root's
tree at the literal names of the pattern.  The paths that are listed below the start are those of
the tree with the literal names in front, and the glob sees them as they are seen from the root.

- `Ground`: a root with an ordinary tree.
- `node?_start`: what the start leads to.
- `candidate?_start`, `pathBelow_start`: how the files below the start are seen.
-/

namespace UpdateFeed.Signature

open UpdateFeed.Path (IsName IsSegment forall_isSegment plainNames)
open FileSystem (pathFault? pathFault?_eq_none_iff)

/-! ## §1 Grounds -/

/-- A root that leads to an ordinary directory. -/
structure Ground (files : FileSystem) (root : String) (node : Node) : Prop where
  found : files.node? root = .ok node
  directory : node.isDirectory = true
  ordinary : node.isOrdinary = true

/-- Whether a pattern names neither its own directory nor the one above. -/
def HasNoDots (pattern : String) : Prop :=
  ∀ name ∈ plainNames pattern, name ≠ "." ∧ name ≠ ".."

theorem isSegment_of_mem_plainNames {pattern name : String} (hname : name ∈ plainNames pattern) :
    IsSegment name := by
  rw [plainNames, List.mem_filter] at hname
  obtain ⟨hsegment, hempty⟩ := hname
  obtain ⟨piece, hpiece, rfl⟩ := List.mem_map.mp hsegment
  refine ⟨by simpa using hempty, ?_⟩
  rw [String.toList_ofList]
  exact Path.slash_notMem_of_mem_splitOn hpiece

theorem isSegment_of_mem_literalNames {pattern name : String}
    (hname : name ∈ literalNames pattern) : IsSegment name :=
  isSegment_of_mem_plainNames ((literalNames_isPrefix pattern).subset hname)

theorem isName_of_mem_plainNames {pattern name : String} (h : HasNoDots pattern)
    (hname : name ∈ plainNames pattern) : IsName name := by
  obtain ⟨hdot, hdots⟩ := h name hname
  obtain ⟨hempty, hslash⟩ := isSegment_of_mem_plainNames hname
  exact ⟨hempty, hdot, hdots, hslash⟩

theorem isName_of_mem_literalNames {pattern name : String} (h : HasNoDots pattern)
    (hname : name ∈ literalNames pattern) : IsName name :=
  isName_of_mem_plainNames h ((literalNames_isPrefix pattern).subset hname)

/-! ## §2 Starts -/

theorem base_descent (pattern : String) :
    (descent pattern).base = (literalNames pattern).foldl Path.join "" := by
  unfold descent literalNames
  split
  · rename_i hnil
    rw [hnil]
    rfl
  · dsimp only
    congr 1
    exact (List.prefix_iff_eq_take.mp (literalNames_isPrefix pattern)).symm

/-- Where a search for a relative pattern starts. -/
def startOf (root pattern : String) : String :=
  Path.join root (descent pattern).base

section

variable {files : FileSystem} {root pattern : String} {node : Node}

/-- The start is the root itself with a slash, or the path of the literal names below it. -/
theorem startOf_eq (root pattern : String) :
    startOf root pattern = Path.join root ("/".intercalate (literalNames pattern)) := by
  rw [startOf, base_descent]
  by_cases hnil : literalNames pattern = []
  · rw [hnil]
    rfl
  · have hnames : ∀ name ∈ literalNames pattern, IsSegment name :=
      fun name hname => isSegment_of_mem_literalNames hname
    rw [Path.foldl_join hnames hnil, Path.empty_join]

/-- The start is below the root: what is joined to it is never absolute. -/
theorem isAbsolute_base (pattern : String) : Path.isAbsolute (descent pattern).base = false := by
  have hnames : ∀ name ∈ literalNames pattern, IsSegment name :=
    fun name hname => isSegment_of_mem_literalNames hname
  have hstart := startOf_eq "" pattern
  rw [startOf, Path.empty_join, Path.empty_join] at hstart
  rw [hstart]
  exact Path.isAbsolute_intercalate hnames

/-- A path below the start is one below the root with the literal names in front. -/
theorem pathBelow_start {names : List String} (hnames : ∀ name ∈ names, IsSegment name)
    (hne : names ≠ []) :
    pathBelow (startOf root pattern) names = pathBelow root (literalNames pattern ++ names) := by
  have hliteral : ∀ name ∈ literalNames pattern, IsSegment name :=
    fun name hname => isSegment_of_mem_literalNames hname
  rw [startOf_eq, pathBelow, pathBelow, List.foldl_append]
  by_cases hnil : literalNames pattern = []
  · -- the start is the root with a slash, which joins like the root
    rw [hnil, List.foldl_nil, Path.foldl_join hnames hne, Path.foldl_join hnames hne]
    exact Path.join_join_empty (Path.isAbsolute_intercalate hnames)
  · rw [Path.foldl_join hliteral hnil]

theorem pathBelow_eq {names : List String} (hnames : ∀ name ∈ names, IsSegment name)
    (hne : names ≠ []) : pathBelow root names = Path.join root ("/".intercalate names) :=
  Path.foldl_join hnames hne root

theorem isSegment_of_mem_append {names : List String} (hnames : ∀ name ∈ names, IsSegment name) :
    ∀ name ∈ literalNames pattern ++ names, IsSegment name := by
  intro name hname
  rcases List.mem_append.mp hname with hname | hname
  · exact isSegment_of_mem_literalNames hname
  · exact hnames name hname

/-- A relative pattern is compared with the names below the root. -/
theorem candidate?_start {names : List String} (hnames : ∀ name ∈ names, IsSegment name)
    (hne : names ≠ []) (hdot : (literalNames pattern ++ names).head? ≠ some ".") :
    candidate? root false (pathBelow (startOf root pattern) names) =
      some ("/".intercalate (literalNames pattern ++ names)) := by
  have hall := @isSegment_of_mem_append pattern names hnames
  have hfull : literalNames pattern ++ names ≠ [] := by simp [hne]
  rw [pathBelow_start hnames hne, pathBelow_eq hall hfull]
  exact Path.relativeTo?_join hall hfull hdot

/-- What the start leads to is what stands at the literal names. -/
theorem node?_start (hground : Ground files root node) (hdots : HasNoDots pattern)
    {found : Node} (hfound : found.isDirectory = true) :
    files.node? (startOf root pattern) = .ok found ↔
      pathFault? (startOf root pattern) = none
        ∧ node.at? (literalNames pattern) = some found := by
  rw [startOf_eq]
  by_cases hnil : literalNames pattern = []
  · -- without literal names the walk starts at the root, with a slash behind it
    rw [hnil, String.intercalate_nil, FileSystem.node?_join_empty hground.found]
    apply and_congr_right
    intro _
    constructor
    · rintro ⟨rfl, -⟩
      rfl
    · intro heq
      obtain rfl := Option.some.inj heq
      refine ⟨rfl, ?_⟩
      cases node with
      | directory entries => exact ⟨entries, rfl⟩
      | file content => cases hfound
      | link target => cases hfound
  · exact FileSystem.node?_join hground.found hground.ordinary
      (fun name hname => isName_of_mem_literalNames hdots hname) hnil

/-- A start is no longer than the paths below it. -/
theorem utf8ByteSize_startOf_le {names : List String} (hnames : ∀ name ∈ names, IsSegment name)
    (hne : names ≠ []) :
    (startOf root pattern).utf8ByteSize ≤
      (pathBelow root (literalNames pattern ++ names)).utf8ByteSize := by
  rw [← pathBelow_start hnames hne, pathBelow_eq hnames hne,
    Path.join_eq (Path.isAbsolute_intercalate hnames), String.utf8ByteSize_append,
    String.utf8ByteSize_append]
  omega

/-- A start that something of the tree stands below can be used, if it is not too long. -/
theorem pathFault?_start (hground : Ground files root node) {names : List String} {found : Node}
    (hat : node.at? (literalNames pattern ++ names) = some found)
    (hshort : (startOf root pattern).utf8ByteSize < FileSystem.pathLimit) :
    pathFault? (startOf root pattern) = none := by
  have hroot := FileSystem.ne_empty_of_node? hground.found
  obtain ⟨hrootNul, -, -⟩ :=
    pathFault?_eq_none_iff.mp (FileSystem.node?_eq_ok_iff.mp hground.found).1
  obtain ⟨hordinary, -⟩ := Node.isOrdinary_of_at? hground.ordinary hat
  have hliteral : ∀ name ∈ literalNames pattern, IsSegment name :=
    fun name hname => isSegment_of_mem_literalNames hname
  have hstart : startOf root pattern =
      root ++ Path.separator root ++ "/".intercalate (literalNames pattern) := by
    rw [startOf_eq, Path.join_eq (Path.isAbsolute_intercalate hliteral)]
  rw [pathFault?_eq_none_iff]
  refine ⟨?_, ?_, hshort⟩
  · -- a lookup of the root has no such character, and a name of the tree has none either
    intro hmem
    rw [hstart, String.toList_append, String.toList_append, List.mem_append,
      List.mem_append] at hmem
    rcases hmem with (hmem | hmem) | hmem
    · exact hrootNul hmem
    · unfold Path.separator at hmem
      split_ifs at hmem
      · cases hmem
      · exact absurd hmem (by decide)
    · rw [String.toList_intercalate] at hmem
      rcases mem_intercalate hmem with hsep | ⟨piece, hpiece, hmem⟩
      · cases hsep
      · obtain ⟨name, hname, rfl⟩ := List.mem_map.mp hpiece
        have hordinaryName := hordinary name (List.mem_append_left _ hname)
        simp only [Node.isOrdinaryName, Bool.and_eq_true, Bool.not_eq_true'] at hordinaryName
        have hnul := hordinaryName.1.2
        simp [hmem] at hnul
  · rw [hstart]
    simp [hroot]

end

end UpdateFeed.Signature
