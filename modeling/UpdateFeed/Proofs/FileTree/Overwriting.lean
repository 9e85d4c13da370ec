import UpdateFeed.Proofs.FileTree.Agreement

/-!
# Files that are given other contents

Files that are there are given other contents one after the other.  What a tree is in the end
depends neither on the order nor on how often a file is given its content, as long as no file is
given two different ones.

- `overwrite_comm`, `overwrite_of_holdingAt`: contents for different places, and one that is there.
- `overwritten_of_mem_iff`: the same replacements in any order and any number of times.
- `holdingAt_overwritten_of_mem`, `holdingAt_overwritten_of_ne`: what is held in the end.
- `agree_overwritten`, `replaceText_overwritten`: how paths see the replacements, and make them.
-/

namespace UpdateFeed

/-- Another content for the file at a place. -/
structure Replacement where
  place : Address
  content : ByteArray

namespace Node

/-! ## §1 Entries and places -/

variable {tree child node : Node} {entries : Entries} {name other : String}

theorem setEntry_of_child? (h : child? name entries = some node) :
    setEntry name node entries = entries := by
  fun_induction child? name entries with
  | case1 => simp at h
  | case2 found entries =>
    obtain rfl := Option.some.inj h
    simp [setEntry]
  | case3 first found entries hne ih => simp [setEntry, hne, ih h]

theorem setEntry_setEntry (name : String) (first second : Node) (entries : Entries) :
    setEntry name second (setEntry name first entries) = setEntry name second entries := by
  fun_induction setEntry name first entries with
  | case1 => simp [setEntry]
  | case2 found entries => simp [setEntry]
  | case3 first found entries hne ih => simp [setEntry, hne, ih]

/-- Entries with different names that are both there are set in either order. -/
theorem setEntry_comm (hne : name ≠ other) {first second : Node}
    (hname : (child? name entries).isSome) (hother : (child? other entries).isSome) :
    setEntry other second (setEntry name first entries) =
      setEntry name first (setEntry other second entries) := by
  induction entries with
  | nil => simp [child?] at hname
  | cons entry entries ih =>
    obtain ⟨key, found⟩ := entry
    by_cases hkey : key = name
    · subst hkey
      simp [setEntry, hne]
    · by_cases hkey' : key = other
      · subst hkey'
        simp [setEntry, hkey]
      · rw [child?, if_neg hkey] at hname
        rw [child?, if_neg hkey'] at hother
        simp [setEntry, hkey, hkey', ih hname hother]

/-- A node is put below an entry that is there. -/
theorem put_directory_cons (h : child? name entries = some child) (names : Address) (node : Node) :
    (Node.directory entries).put (name :: names) node =
      .directory (setEntry name (child.put names node) entries) := by
  cases names with
  | nil => simp [put]
  | cons second names => simp [put, h]

/-- The node that is at a place already is put there without any change. -/
theorem put_of_at? {place : Address} (h : tree.at? place = some node) :
    tree.put place node = tree := by
  induction place generalizing tree with
  | nil =>
    obtain rfl := Option.some.inj h
    simp [put]
  | cons name names ih =>
    cases tree with
    | file content => simp at h
    | link target => simp [at?] at h
    | directory entries =>
      obtain ⟨child, hchild, hat⟩ := Option.bind_eq_some_iff.mp h
      rw [put_directory_cons hchild, ih hat, setEntry_of_child? hchild]

/-- Nodes that take the places of files at different places are put there in either order. -/
theorem put_comm {place elsewhere : Address} {old old' : ByteArray} (hne : place ≠ elsewhere)
    (h : tree.at? place = some (.file old)) (h' : tree.at? elsewhere = some (.file old'))
    (first second : Node) :
    (tree.put place first).put elsewhere second = (tree.put elsewhere second).put place first := by
  induction place generalizing tree elsewhere with
  | nil =>
    -- the tree is a file, so nothing is elsewhere
    obtain rfl := Option.some.inj h
    cases elsewhere with
    | nil => exact absurd rfl hne
    | cons name names => simp at h'
  | cons name names ih =>
    cases tree with
    | file content => simp at h
    | link target => simp [at?] at h
    | directory entries =>
      obtain ⟨child, hchild, hat⟩ := Option.bind_eq_some_iff.mp h
      cases elsewhere with
      | nil => simp at h'
      | cons name' names' =>
        obtain ⟨child', hchild', hat'⟩ := Option.bind_eq_some_iff.mp h'
        rw [put_directory_cons hchild, put_directory_cons hchild']
        by_cases hname : name = name'
        · -- both go through one entry, and are put below it
          subst hname
          obtain rfl : child = child' := Option.some.inj (hchild.symm.trans hchild')
          have hrest : names ≠ names' := fun heq => hne (by rw [heq])
          rw [put_directory_cons (child?_setEntry_self name _ entries),
            put_directory_cons (child?_setEntry_self name _ entries), setEntry_setEntry,
            setEntry_setEntry, ih hrest hat hat']
        · rw [put_directory_cons ((child?_setEntry_of_ne hname _ entries).trans hchild'),
            put_directory_cons ((child?_setEntry_of_ne (Ne.symm hname) _ entries).trans hchild),
            setEntry_comm hname (by simp [hchild]) (by simp [hchild'])]

theorem at?_put_file {place : Address} {old : ByteArray} (h : tree.at? place = some (.file old))
    (content : ByteArray) :
    (tree.put place (.file content)).at? place = some (.file content) := by
  induction place generalizing tree with
  | nil => simp [put]
  | cons name names ih =>
    cases tree with
    | file content => simp at h
    | link target => simp [at?] at h
    | directory entries =>
      obtain ⟨child, hchild, hat⟩ := Option.bind_eq_some_iff.mp h
      rw [put_directory_cons hchild, at?_cons, child?_setEntry_self, Option.bind_some]
      exact ih hat

/-! ## §2 One replacement -/

/-- Gives the file at a place another content; without a file there nothing changes. -/
def overwrite (tree : Node) (replacement : Replacement) : Node :=
  match tree.holdingAt replacement.place with
  | some (.file _) => tree.put replacement.place (.file replacement.content)
  | _ => tree

variable {replacement also : Replacement}

theorem overwrite_of_file {old : ByteArray}
    (h : tree.holdingAt replacement.place = some (.file old)) :
    tree.overwrite replacement = tree.put replacement.place (.file replacement.content) := by
  unfold overwrite
  rw [h]

theorem overwrite_of_not_file (h : ∀ old, tree.holdingAt replacement.place ≠ some (.file old)) :
    tree.overwrite replacement = tree := by
  unfold overwrite
  split
  · exact absurd ‹_› (h _)
  · rfl

theorem holdingAt_overwrite_self {old : ByteArray}
    (h : tree.holdingAt replacement.place = some (.file old)) :
    (tree.overwrite replacement).holdingAt replacement.place =
      some (.file replacement.content) := by
  rw [overwrite_of_file h, holdingAt, at?_put_file (holdingAt_eq_file_iff.mp h)]
  rfl

theorem holdingAt_overwrite_of_ne {place : Address} (hne : place ≠ replacement.place) :
    (tree.overwrite replacement).holdingAt place = tree.holdingAt place := by
  by_cases hfile : ∃ old, tree.holdingAt replacement.place = some (.file old)
  · obtain ⟨old, hold⟩ := hfile
    rw [overwrite_of_file hold]
    exact holdingAt_put_of_ne hne
      (fun entries hentries => by cases (holdingAt_eq_file_iff.mp hold).symm.trans hentries) _
  · rw [overwrite_of_not_file fun old hold => hfile ⟨old, hold⟩]

/-- A content that the file has is no change. -/
theorem overwrite_of_holdingAt
    (h : tree.holdingAt replacement.place = some (.file replacement.content)) :
    tree.overwrite replacement = tree := by
  rw [overwrite_of_file h, put_of_at? (holdingAt_eq_file_iff.mp h)]

/-- A content that was just given is no change. -/
theorem overwrite_overwrite (tree : Node) (replacement : Replacement) :
    (tree.overwrite replacement).overwrite replacement = tree.overwrite replacement := by
  by_cases hfile : ∃ old, tree.holdingAt replacement.place = some (.file old)
  · obtain ⟨old, hold⟩ := hfile
    exact overwrite_of_holdingAt (holdingAt_overwrite_self hold)
  · rw [overwrite_of_not_file fun old hold => hfile ⟨old, hold⟩,
      overwrite_of_not_file fun old hold => hfile ⟨old, hold⟩]

/-- Replacements at different places are made in either order. -/
theorem overwrite_comm (hne : replacement.place ≠ also.place) :
    (tree.overwrite replacement).overwrite also = (tree.overwrite also).overwrite replacement := by
  by_cases hfile : ∃ old, tree.holdingAt replacement.place = some (.file old)
  · by_cases hfile' : ∃ old, tree.holdingAt also.place = some (.file old)
    · obtain ⟨old, hold⟩ := hfile
      obtain ⟨old', hold'⟩ := hfile'
      rw [overwrite_of_file ((holdingAt_overwrite_of_ne (Ne.symm hne)).trans hold'),
        overwrite_of_file ((holdingAt_overwrite_of_ne hne).trans hold), overwrite_of_file hold,
        overwrite_of_file hold']
      exact put_comm hne (holdingAt_eq_file_iff.mp hold) (holdingAt_eq_file_iff.mp hold') _ _
    · -- there is no file for the one of them, before the other and behind it
      have hnone : ∀ old, tree.holdingAt also.place ≠ some (.file old) :=
        fun old hold => hfile' ⟨old, hold⟩
      have hkept : tree.overwrite also = tree := overwrite_of_not_file hnone
      rw [hkept, overwrite_of_not_file]
      intro old hold
      exact hnone old ((holdingAt_overwrite_of_ne (Ne.symm hne)).symm.trans hold)
  · have hnone : ∀ old, tree.holdingAt replacement.place ≠ some (.file old) :=
      fun old hold => hfile ⟨old, hold⟩
    have hkept : tree.overwrite replacement = tree := overwrite_of_not_file hnone
    rw [hkept]
    refine (overwrite_of_not_file ?_).symm
    intro old hold
    exact hnone old ((holdingAt_overwrite_of_ne hne).symm.trans hold)

theorem outline_overwrite (tree : Node) (replacement : Replacement) :
    (tree.overwrite replacement).outline = tree.outline := by
  by_cases hfile : ∃ old, tree.holdingAt replacement.place = some (.file old)
  · obtain ⟨old, hold⟩ := hfile
    rw [overwrite_of_file hold, outline_put (holdingAt_eq_file_iff.mp hold)]
  · rw [overwrite_of_not_file fun old hold => hfile ⟨old, hold⟩]

end Node

/-! ## §3 Several replacements -/

/-- Whether no place is given two different contents. -/
def Consistent (replacements : List Replacement) : Prop :=
  ∀ first ∈ replacements, ∀ second ∈ replacements, first.place = second.place → first = second

theorem Consistent.of_subset {some all : List Replacement} (h : Consistent all)
    (hsome : some ⊆ all) : Consistent some :=
  fun first hfirst second hsecond => h first (hsome hfirst) second (hsome hsecond)

namespace Node

variable {tree : Node} {replacement : Replacement} {replacements : List Replacement}

/-- A replacement that agrees with others is made before them or behind them. -/
theorem foldl_overwrite_comm
    (h : ∀ other ∈ replacements, replacement.place = other.place → replacement = other) :
    replacements.foldl overwrite (tree.overwrite replacement) =
      (replacements.foldl overwrite tree).overwrite replacement := by
  induction replacements generalizing tree with
  | nil => rfl
  | cons other replacements ih =>
    have hother := h other List.mem_cons_self
    have hswap : (tree.overwrite replacement).overwrite other =
        (tree.overwrite other).overwrite replacement := by
      by_cases hplace : replacement.place = other.place
      · rw [hother hplace]
      · exact overwrite_comm hplace
    rw [List.foldl_cons, List.foldl_cons, hswap]
    exact ih fun third hthird => h third (List.mem_cons_of_mem other hthird)

/-- A replacement that was made is no change any more. -/
theorem foldl_overwrite_of_mem (hconsistent : Consistent replacements)
    (h : replacement ∈ replacements) :
    (replacements.foldl overwrite tree).overwrite replacement =
      replacements.foldl overwrite tree := by
  rw [← foldl_overwrite_comm fun other hother => hconsistent replacement h other hother]
  induction replacements generalizing tree with
  | nil => simp at h
  | cons first replacements ih =>
    rw [List.foldl_cons, List.foldl_cons]
    rcases List.mem_cons.mp h with rfl | hlater
    · rw [overwrite_overwrite]
    · -- it is brought behind the first one, to where it is made again
      have hrest : Consistent replacements :=
        hconsistent.of_subset fun other => List.mem_cons_of_mem first
      have hswap : (tree.overwrite replacement).overwrite first =
          (tree.overwrite first).overwrite replacement := by
        by_cases hplace : replacement.place = first.place
        · rw [hconsistent replacement h first List.mem_cons_self hplace]
        · exact overwrite_comm hplace
      rw [hswap]
      exact ih hrest hlater

end Node

namespace FileSystem

variable {files : FileSystem} {replacements others : List Replacement}

/-- The files after replacements, one after the other. -/
def overwritten (files : FileSystem) (replacements : List Replacement) : FileSystem :=
  { files with tree := replacements.foldl Node.overwrite files.tree }

@[simp] theorem overwritten_nil (files : FileSystem) : files.overwritten [] = files := rfl

theorem overwritten_append (files : FileSystem) (replacements others : List Replacement) :
    files.overwritten (replacements ++ others) =
      (files.overwritten replacements).overwritten others := by
  simp [overwritten, List.foldl_append]

/-- Replacements that were made are no change any more. -/
theorem overwritten_append_of_subset (hconsistent : Consistent replacements)
    (h : others ⊆ replacements) :
    files.overwritten (replacements ++ others) = files.overwritten replacements := by
  induction others with
  | nil => rw [List.append_nil]
  | cons first others ih =>
    obtain ⟨hfirst, hothers⟩ := List.cons_subset.mp h
    have hsame : (files.overwritten replacements).overwritten [first] =
        files.overwritten replacements := by
      show ({ files with tree := _ } : FileSystem) = { files with tree := _ }
      rw [FileSystem.mk.injEq]
      exact ⟨Node.foldl_overwrite_of_mem hconsistent hfirst, rfl⟩
    rw [show first :: others = [first] ++ others from rfl, ← List.append_assoc,
      overwritten_append, overwritten_append, hsame, ← overwritten_append]
    exact ih hothers

/-- Replacements that agree are made in either order. -/
theorem overwritten_append_comm (hconsistent : Consistent (replacements ++ others)) :
    files.overwritten (replacements ++ others) = files.overwritten (others ++ replacements) := by
  induction others generalizing files with
  | nil => simp
  | cons first others ih =>
    -- the first of the others goes in front of the replacements, and the others follow
    have hfirst : ∀ other ∈ replacements, first.place = other.place → first = other :=
      fun other hother => hconsistent first (by simp) other (by simp [hother])
    have hswap : files.overwritten (replacements ++ [first]) =
        (files.overwritten [first]).overwritten replacements := by
      show ({ files with tree := _ } : FileSystem) = { files with tree := _ }
      rw [FileSystem.mk.injEq]
      refine ⟨?_, rfl⟩
      rw [List.foldl_append]
      exact (Node.foldl_overwrite_comm hfirst).symm
    have hrest : Consistent (replacements ++ others) := hconsistent.of_subset (by
      intro other hother
      rcases List.mem_append.mp hother with hother | hother
      · exact List.mem_append_left _ hother
      · exact List.mem_append_right _ (List.mem_cons_of_mem first hother))
    calc files.overwritten (replacements ++ first :: others)
        = (files.overwritten (replacements ++ [first])).overwritten others := by
          rw [← overwritten_append]
          simp
      _ = (files.overwritten [first]).overwritten (replacements ++ others) := by
          rw [hswap, overwritten_append]
      _ = (files.overwritten [first]).overwritten (others ++ replacements) := ih hrest
      _ = files.overwritten (first :: others ++ replacements) := by
          rw [← overwritten_append]
          simp

/-- The same replacements, in any order and any number of times. -/
theorem overwritten_of_mem_iff (hconsistent : Consistent replacements)
    (h : ∀ replacement, replacement ∈ others ↔ replacement ∈ replacements) :
    files.overwritten others = files.overwritten replacements := by
  have hsubset : others ⊆ replacements := fun _ hmem => (h _).mp hmem
  have hsubset' : replacements ⊆ others := fun _ hmem => (h _).mpr hmem
  have hboth : Consistent (others ++ replacements) :=
    hconsistent.of_subset (List.append_subset.mpr ⟨hsubset, List.Subset.refl replacements⟩)
  rw [← overwritten_append_of_subset (hconsistent.of_subset hsubset) hsubset',
    overwritten_append_comm hboth, overwritten_append_of_subset hconsistent hsubset]

/-! ## §4 What is held and read in the end -/

theorem outlined_overwritten (files : FileSystem) (replacements : List Replacement) :
    (files.overwritten replacements).outlined = files.outlined := by
  unfold outlined overwritten
  rw [FileSystem.mk.injEq]
  refine ⟨?_, rfl⟩
  generalize files.tree = tree
  dsimp only
  induction replacements generalizing tree with
  | nil => rfl
  | cons first replacements ih => rw [List.foldl_cons, ih, Node.outline_overwrite]

/-- What is not replaced is held as before. -/
theorem holdingAt_overwritten_of_ne {place : Address}
    (h : ∀ replacement ∈ replacements, place ≠ replacement.place) :
    (files.overwritten replacements).tree.holdingAt place = files.tree.holdingAt place := by
  unfold overwritten
  dsimp only
  generalize files.tree = tree
  induction replacements generalizing tree with
  | nil => rfl
  | cons first replacements ih =>
    obtain ⟨hfirst, hothers⟩ := List.forall_mem_cons.mp h
    rw [List.foldl_cons, ih hothers, Node.holdingAt_overwrite_of_ne hfirst]

/-- A file stays a file. -/
theorem exists_holdingAt_overwritten {place : Address} {old : ByteArray}
    (h : files.tree.holdingAt place = some (.file old)) :
    ∃ content, (files.overwritten replacements).tree.holdingAt place = some (.file content) := by
  unfold overwritten
  dsimp only
  generalize files.tree = tree at h
  induction replacements generalizing tree old with
  | nil => exact ⟨old, h⟩
  | cons first replacements ih =>
    rw [List.foldl_cons]
    by_cases hplace : place = first.place
    · subst hplace
      exact ih _ (Node.holdingAt_overwrite_self h)
    · exact ih _ ((Node.holdingAt_overwrite_of_ne hplace).trans h)

/-- A file that is replaced holds its new content. -/
theorem holdingAt_overwritten_of_mem {replacement : Replacement} {old : ByteArray}
    (hconsistent : Consistent replacements) (hmem : replacement ∈ replacements)
    (hfile : files.tree.holdingAt replacement.place = some (.file old)) :
    (files.overwritten replacements).tree.holdingAt replacement.place =
      some (.file replacement.content) := by
  -- making it once more is no change, and gives the file its content
  obtain ⟨content, hcontent⟩ := exists_holdingAt_overwritten hfile
  have hsame : (files.overwritten replacements).tree.overwrite replacement =
      (files.overwritten replacements).tree := Node.foldl_overwrite_of_mem hconsistent hmem
  rw [← hsame]
  exact Node.holdingAt_overwrite_self hcontent

/-- What is read at paths that lead to no replaced file is the same. -/
theorem agree_overwritten (files : FileSystem) (replacements : List Replacement) :
    Agree (fun path => ∀ replacement ∈ replacements, files.locate path ≠ .ok replacement.place)
      files (files.overwritten replacements) where
  outline := outlined_overwritten files replacements
  content path hpath := by
    have hlocate : (files.overwritten replacements).locate path = files.locate path := by
      rw [← locate_outlined, outlined_overwritten, locate_outlined]
    rw [readBytes_eq, readBytes_eq, hlocate]
    cases hplace : files.locate path with
    | error fault => rfl
    | ok place =>
      dsimp only
      rw [holdingAt_overwritten_of_ne fun replacement hmem heq =>
        hpath replacement hmem (heq ▸ hplace)]

/-- A text that is written to a path of a file is a replacement. -/
theorem replaceText_overwritten {path : String} {place : Address} {content : ByteArray}
    (hfile : files.node? path = .ok (.file content)) (hlocate : files.locate path = .ok place)
    (hplace : files.destination path = .ok place) (text : String) :
    (files.overwritten replacements).replaceText path text =
      .ok (files.overwritten (replacements ++ [⟨place, text.toUTF8⟩])) := by
  have hagree : Agree (fun _ => False) files (files.overwritten replacements) :=
    ⟨outlined_overwritten files replacements, fun _ hnone => hnone.elim⟩
  obtain ⟨other, hother⟩ := hagree.exists_file hfile
  obtain ⟨written, hwritten, hreplace⟩ := exists_replaceText hother
  obtain rfl : written = place := by
    rw [hagree.destination, hplace] at hwritten
    exact (Except.ok.inj hwritten).symm
  have hat : (files.overwritten replacements).tree.at? written = some (.file other) :=
    at?_of_node? hother ((hagree.locate path).trans hlocate)
  rw [hreplace, overwritten_append]
  show _ = Except.ok { files.overwritten replacements with
    tree := (files.overwritten replacements).tree.overwrite ⟨written, text.toUTF8⟩ }
  rw [Node.overwrite_of_file (Node.holdingAt_eq_file_iff.mpr hat)]

end FileSystem

end UpdateFeed
