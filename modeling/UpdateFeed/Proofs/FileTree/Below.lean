import UpdateFeed.Proofs.FileTree.Walking
import UpdateFeed.Proofs.FileTree.Listing
import UpdateFeed.Proofs.Path

/-!
# Looking up paths below a directory

Below a directory without links, a path that is joined to that of the directory leads to what stands
at its names, provided that the path can be used at all.  Where there are links, that is so at least
of the files, since an address does not go through a link.

- `advance_below`, `walk_below`: a walk is the following of an address, if it meets no link.
- `node?_join`, `node?_join_file`: so is a lookup of names below a path, from where that leads.
-/

namespace UpdateFeed

open UpdateFeed.Path (IsName plainNames)

theorem isName_of_isOrdinaryName {name : String} (h : Node.isOrdinaryName name = true) :
    IsName name := by
  simp only [Node.isOrdinaryName, Bool.and_eq_true, decide_eq_true_eq, Bool.not_eq_true'] at h
  obtain ⟨⟨⟨⟨⟨hempty, hdot⟩, hdots⟩, hslash⟩, _⟩, _⟩ := h
  exact ⟨hempty, hdot, hdots, by simpa using hslash⟩

/-- What stands somewhere below a named node stands at names. -/
theorem isName_of_at? {node found : Node} {names : List String} (hnode : node.isNamed = true)
    (hfound : node.at? names = some found) : ∀ name ∈ names, IsName name :=
  fun name hname => isName_of_isOrdinaryName ((Node.isNamed_of_at? hnode hfound).1 name hname)

namespace FileSystem

/-! ## §1 Walks -/

section

variable {tree node : Node} {place : Address}

/-- An address that does not lead to a link is walked to its end, since none of the directories on
the way is a link. -/
theorem advance_below {names : List String} {found : Node} (hplace : tree.at? place = some node)
    (hnode : node.isNamed = true) (hfound : node.at? names = some found)
    (hlink : ∀ target, found ≠ .link target) :
    advance tree place names = .ok (.arrived (place ++ names)) := by
  -- the names that are left lead from the node at the place that is reached
  induction names generalizing place node with
  | nil => simp [advance]
  | cons name names ih =>
    cases node with
    | file content => simp at hfound
    | link target => simp [Node.at?] at hfound
    | directory entries =>
      obtain ⟨child, hchild, hfound⟩ := Option.bind_eq_some_iff.mp hfound
      rw [Node.isNamed_directory] at hnode
      obtain ⟨hname, hnamed⟩ := Node.isNamed_of_child? hnode hchild
      have hnext : tree.at? (place ++ [name]) = some child := by
        rw [Node.at?_append, hplace]
        simp [hchild]
      have hrest := ih hnext hnamed hfound
      have hlong : ¬ nameLimit < name.utf8ByteSize := by
        simp only [Node.isOrdinaryName, Bool.and_eq_true, decide_eq_true_eq] at hname
        exact Nat.not_lt.mpr hname.2
      obtain ⟨_, hdot, hdots, _⟩ := isName_of_isOrdinaryName hname
      rw [List.append_assoc] at hrest
      rw [advance, hplace]
      dsimp only
      rw [if_neg hdot, if_neg hdots, if_neg hlong, hchild]
      -- below a link there is nothing, so the node of the name would be the one that is found
      cases child with
      | file content => exact hrest
      | directory inner => exact hrest
      | link target =>
        cases names with
        | nil => exact absurd (Option.some.inj hfound).symm (hlink target)
        | cons second rest => cases hfound

theorem at?_of_advance {names : List String} {progress : Progress}
    (hplace : tree.at? place = some node) (hnode : node.isOrdinary = true)
    (hnames : ∀ name ∈ names, IsName name) (h : advance tree place names = .ok progress) :
    ∃ found, node.at? names = some found := by
  induction names generalizing place node with
  | nil => exact ⟨node, rfl⟩
  | cons name names ih =>
    -- a name is no step, so the walk has gone to the child of that name
    obtain ⟨⟨_, hdot, hdots, _⟩, hrest⟩ := List.forall_mem_cons.mp hnames
    rw [advance, hplace] at h
    cases node with
    | file content => simp at h
    | link target => simp at h
    | directory entries =>
      rw [Node.isOrdinary_directory] at hnode
      dsimp only at h
      rw [if_neg hdot, if_neg hdots] at h
      split_ifs at h
      cases hchild : Node.child? name entries with
      | none =>
        rw [hchild] at h
        cases h
      | some child =>
        obtain ⟨_, hordinary⟩ := Node.isOrdinary_of_child? hnode hchild
        have hnext : tree.at? (place ++ [name]) = some child := by
          rw [Node.at?_append, hplace]
          simp [hchild]
        rw [Node.at?_cons, hchild]
        rw [hchild] at h
        cases child with
        | file content => exact ih hnext hordinary hrest h
        | directory inner => exact ih hnext hordinary hrest h
        | link target => simp [Node.isOrdinary] at hordinary

/-- A walk through an ordinary tree leads where the names lead as an address. -/
theorem walk_below {links : Nat} {names : List String} {address : Address}
    (hplace : tree.at? place = some node) (hnode : node.isOrdinary = true)
    (hnames : ∀ name ∈ names, IsName name) :
    walk tree links place names = .ok address ↔
      address = place ++ names ∧ ∃ found, node.at? names = some found := by
  -- nothing below an ordinary node is a link, so the walk never restarts elsewhere
  have hlink : ∀ {found}, node.at? names = some found → ∀ target, found ≠ .link target := by
    rintro found hfound target rfl
    have hordinary := (Node.isOrdinary_of_at? hnode hfound).2
    simp [Node.isOrdinary] at hordinary
  have hnamed := Node.isNamed_of_isOrdinary node hnode
  constructor
  · intro h
    rw [walk] at h
    cases hadvance : advance tree place names with
    | error fault =>
      rw [hadvance] at h
      cases h
    | ok progress =>
      obtain ⟨found, hfound⟩ := at?_of_advance hplace hnode hnames hadvance
      rw [advance_below hplace hnamed hfound (hlink hfound)] at h
      exact ⟨(Except.ok.inj h).symm, found, hfound⟩
  · rintro ⟨rfl, found, hfound⟩
    rw [walk, advance_below hplace hnamed hfound (hlink hfound)]

end

/-! ## §2 Lookups -/

section

variable {files : FileSystem} {root : String} {node : Node}

/-- When a path can be looked up at all. -/
theorem pathFault?_eq_none_iff {path : String} :
    pathFault? path = none ↔
      '\x00' ∉ path.toList ∧ path ≠ "" ∧ path.utf8ByteSize < pathLimit := by
  unfold pathFault?
  split_ifs with hnul hempty hlong
  · simpa using fun h => absurd hnul (by simpa using h)
  · simp [hempty]
  · simp [Nat.not_lt.mpr hlong]
  · simp only [List.contains_iff_mem] at hnul
    exact ⟨fun _ => ⟨hnul, hempty, Nat.not_le.mp hlong⟩, fun _ => rfl⟩

theorem node?_eq_ok_iff {path : String} {found : Node} :
    files.node? path = .ok found ↔
      pathFault? path = none
        ∧ ∃ place, walk files.tree linkLimit (files.start path) (Path.names path) = .ok place
          ∧ files.tree.at? place = some found := by
  unfold node? locate
  cases pathFault? path with
  | some fault => simp
  | none =>
    cases walk files.tree linkLimit (files.start path) (Path.names path) with
    | error fault => simp
    | ok place => cases hat : files.tree.at? place <;> simp [hat]

theorem ne_empty_of_node? (h : files.node? root = .ok node) : root ≠ "" := by
  rintro rfl
  have hfault := (node?_eq_ok_iff.mp h).1
  cases hfault

/-- What a path leads to in a named tree is named. -/
theorem isNamed_of_node? (hnamed : files.tree.isNamed = true) (h : files.node? root = .ok node) :
    node.isNamed = true := by
  obtain ⟨-, place, -, hplace⟩ := node?_eq_ok_iff.mp h
  exact (Node.isNamed_of_at? hnamed hplace).2

/-- Further names behind those of a path are walked from where the path leads. -/
theorem exists_walk_of_node? (h : files.node? root = .ok node) :
    ∃ place left, files.tree.at? place = some node
      ∧ ∀ more, walk files.tree linkLimit (files.start root) (plainNames root ++ more) =
        walk files.tree left place more := by
  obtain ⟨_, place, hwalk, hplace⟩ := node?_eq_ok_iff.mp h
  -- a slash at the end of the path is a last name `.`, which only asks for a directory
  have hplain :
      walk files.tree linkLimit (files.start root) (plainNames root) = .ok place := by
    unfold Path.names at hwalk
    split_ifs at hwalk
    · exact (walk_append_dot hwalk).1
    · exact hwalk
  rcases walk_append files.tree linkLimit (files.start root) (plainNames root) with
    ⟨fault, hfault⟩ | ⟨between, left, hbetween, hmore⟩
  · have hwhole := hfault []
    rw [List.append_nil, hplain] at hwhole
    cases hwhole
  · rw [hplain] at hbetween
    obtain rfl := Except.ok.inj hbetween
    exact ⟨place, left, hplace, hmore⟩

/-- Names below a path are walked from where the path leads. -/
theorem exists_place_of_node? {names : List String} (h : files.node? root = .ok node)
    (hnames : ∀ name ∈ names, IsName name) (hne : names ≠ []) :
    ∃ place left, files.tree.at? place = some node
      ∧ ∀ found, files.node? (Path.join root ("/".intercalate names)) = .ok found ↔
        pathFault? (Path.join root ("/".intercalate names)) = none
          ∧ ∃ address, walk files.tree left place names = .ok address
            ∧ files.tree.at? address = some found := by
  have hsegments := Path.forall_isSegment hnames
  have hrelative := Path.isAbsolute_intercalate hsegments
  have hroot := ne_empty_of_node? h
  obtain ⟨place, left, hplace, hmore⟩ := exists_walk_of_node? h
  have hstart : files.start (Path.join root ("/".intercalate names)) = files.start root := by
    unfold start
    rw [Path.isAbsolute_join hrelative hroot]
  -- the joined path has the names of the root and the further ones, and no slash at its end
  have hlist : Path.names (Path.join root ("/".intercalate names)) = plainNames root ++ names := by
    rw [Path.names_eq_plainNames, Path.plainNames_join hrelative,
      Path.plainNames_intercalate hsegments]
    rw [Path.join_eq hrelative, Path.getLast?_append (Path.intercalate_ne_empty hsegments hne)]
    exact Path.getLast?_intercalate hsegments
  refine ⟨place, left, hplace, fun found => ?_⟩
  rw [node?_eq_ok_iff, hstart, hlist, hmore]

/-- A lookup of names below a path leads where the names lead from the node of the path. -/
theorem node?_join {names : List String} {found : Node} (h : files.node? root = .ok node)
    (hnode : node.isOrdinary = true) (hnames : ∀ name ∈ names, IsName name) (hne : names ≠ []) :
    files.node? (Path.join root ("/".intercalate names)) = .ok found ↔
      pathFault? (Path.join root ("/".intercalate names)) = none
        ∧ node.at? names = some found := by
  obtain ⟨place, left, hplace, hjoin⟩ := exists_place_of_node? h hnames hne
  rw [hjoin]
  apply and_congr_right
  intro _
  constructor
  · rintro ⟨address, hwalk, hat⟩
    obtain ⟨rfl, -⟩ := (walk_below hplace hnode hnames).mp hwalk
    rw [Node.at?_append, hplace] at hat
    exact hat
  · intro hat
    refine ⟨place ++ names, (walk_below hplace hnode hnames).mpr ⟨rfl, found, hat⟩, ?_⟩
    rw [Node.at?_append, hplace]
    exact hat

/-- Where there may be links in the tree, a path to a file leads to the file all the same. -/
theorem node?_join_file {names : List String} {content : ByteArray}
    (h : files.node? root = .ok node) (hnode : node.isNamed = true) (hne : names ≠ [])
    (hfile : node.at? names = some (.file content))
    (hpath : pathFault? (Path.join root ("/".intercalate names)) = none) :
    files.node? (Path.join root ("/".intercalate names)) = .ok (.file content) := by
  obtain ⟨place, left, hplace, hjoin⟩ := exists_place_of_node? h (isName_of_at? hnode hfile) hne
  rw [hjoin]
  refine ⟨hpath, place ++ names, ?_, ?_⟩
  · rw [walk, advance_below hplace hnode hfile (by simp)]
  · rw [Node.at?_append, hplace]
    exact hfile

/-- A lookup of a path with a slash at its end asks for a directory. -/
theorem node?_join_empty {found : Node} (h : files.node? root = .ok node) :
    files.node? (Path.join root "") = .ok found ↔
      pathFault? (Path.join root "") = none ∧ found = node
        ∧ ∃ entries, node = .directory entries := by
  have hroot := ne_empty_of_node? h
  have hrelative : Path.isAbsolute "" = false := rfl
  obtain ⟨place, left, hplace, hmore⟩ := exists_walk_of_node? h
  have hstart : files.start (Path.join root "") = files.start root := by
    unfold start
    rw [Path.isAbsolute_join hrelative hroot]
  -- joining the empty path leaves a slash at the end, which the walk reads as one more step `.`,
  -- and that step asks for a directory
  have hlist : Path.names (Path.join root "") = plainNames root ++ ["."] := by
    rw [Path.names, if_pos (Path.getLast?_join_empty hroot), Path.plainNames_join hrelative,
      Path.plainNames_empty, List.append_nil]
  rw [node?_eq_ok_iff, hstart, hlist, hmore]
  apply and_congr_right
  intro _
  constructor
  · rintro ⟨address, hwalk, hat⟩
    obtain ⟨rfl, entries, hentries⟩ := walk_dot.mp hwalk
    obtain rfl : node = found := Option.some.inj (hplace.symm.trans hat)
    exact ⟨rfl, entries, Option.some.inj (hplace.symm.trans hentries)⟩
  · rintro ⟨rfl, entries, rfl⟩
    exact ⟨place, walk_dot.mpr ⟨rfl, entries, hplace⟩, hplace⟩

end

end FileSystem

end UpdateFeed
