import Mathlib.Tactic.SplitIfs
import UpdateFeed.FileTree.Changes
import UpdateFeed.FileTree.Replace
import UpdateFeed.Proofs.FileTree.Walking

/-!
# What replacing a file changes

A tree is looked at place by place: `holdingAt` gives what a place holds by itself, so that two
trees with the same holdings are the same tree up to the order of the entries of a directory.

- `holdingAt_put_of_ne`: writing a file changes its own place and no other one.
- `replaces_of_replaceText`: replacing the text of a path changes the place that a move onto the
  path reaches, and no other one.
-/

namespace UpdateFeed

/-! ## §1 Holdings -/

namespace Node

/-- What a node holds apart from the places below it. -/
def holding : Node → Holding
  | .file content => .file content
  | .directory _ => .directory
  | .link target => .link target

/-- What the place at an address holds by itself. -/
def holdingAt (address : Address) (tree : Node) : Option Holding :=
  (tree.at? address).map holding

/-- A place that holds a file is the place of a file. -/
theorem holdingAt_eq_file_iff {tree : Node} {address : Address} {content : ByteArray} :
    tree.holdingAt address = some (.file content) ↔ tree.at? address = some (.file content) := by
  rw [holdingAt]
  cases tree.at? address with
  | none => simp
  | some node => cases node <;> simp [holding]

@[simp] theorem child?_setEntry_self (name : String) (node : Node) (entries : Entries) :
    child? name (setEntry name node entries) = some node := by
  fun_induction setEntry name node entries with
  | case1 => simp [child?]
  | case2 => simp [child?]
  | case3 other old entries hne ih => simp [child?, hne, ih]

theorem child?_setEntry_of_ne {name other : String} (h : name ≠ other) (node : Node)
    (entries : Entries) : child? other (setEntry name node entries) = child? other entries := by
  fun_induction setEntry name node entries with
  | case1 => simp [child?, h]
  | case2 old entries => simp [child?, h]
  | case3 n old entries hne ih => simp [child?, ih]

/-- A node that is put into a directory is there. -/
theorem at?_put_self {tree : Node} {directory : Address} {entries : Entries}
    (h : tree.at? directory = some (.directory entries)) (name : String) (node : Node) :
    (tree.put (directory ++ [name]) node).at? (directory ++ [name]) = some node := by
  induction directory generalizing tree with
  | nil =>
    obtain rfl : tree = .directory entries := by simpa using h
    simp [put]
  | cons first names ih =>
    cases tree with
    | file content => simp at h
    | link target => simp [at?] at h
    | directory outer =>
      -- the first name leads to a child, and the node is put somewhere below that
      rw [at?_cons] at h
      obtain ⟨child, hchild, hat⟩ := Option.bind_eq_some_iff.mp h
      have hne : names ++ [name] ≠ [] := by simp
      obtain ⟨last, rest, hrest⟩ := List.exists_cons_of_ne_nil hne
      rw [List.cons_append, hrest, put, hchild]
      · simp only [at?_cons, child?_setEntry_self, Option.bind_some]
        rw [← hrest]
        exact ih hat
      · simp

/-- Writing a file over a place that is no directory changes that place and no other one. -/
theorem holdingAt_put_of_ne {tree : Node} {place address : Address} (hne : address ≠ place)
    (h : ∀ entries, tree.at? place ≠ some (.directory entries)) (content : ByteArray) :
    (tree.put place (.file content)).holdingAt address = tree.holdingAt address := by
  induction place generalizing tree address with
  | nil =>
    -- neither the old node nor the file has anything below it
    obtain ⟨name, names, rfl⟩ := List.exists_cons_of_ne_nil hne
    have htree : ∀ entries, tree ≠ .directory entries := fun entries heq =>
      h entries (by simp [heq])
    simp [holdingAt, put, at?_cons_of_not_directory htree]
  | cons first rest ih =>
    cases tree with
    | file old => rw [put] <;> simp
    | link target => rw [put] <;> simp
    | directory entries =>
      cases address with
      | nil =>
        -- the top stays a directory, whichever entry of it is written
        cases rest with
        | nil => rfl
        | cons second rest => unfold put; split <;> rfl
      | cons name names =>
        by_cases hname : first = name
        · -- both addresses go through the entry that is written
          subst hname
          have hrest : names ≠ rest := fun heq => hne (by rw [heq])
          cases rest with
          | nil =>
            obtain ⟨second, names, rfl⟩ := List.exists_cons_of_ne_nil hrest
            simp only [put, holdingAt, at?_cons, child?_setEntry_self, Option.bind_some,
              at?_file_cons]
            cases hchild : child? first entries with
            | none => rfl
            | some child =>
              have hnode : ∀ entries, child ≠ .directory entries := fun inner heq =>
                h inner (by simp [hchild, heq])
              simp [at?_cons_of_not_directory hnode]
          | cons second rest =>
            cases hchild : child? first entries with
            | none => simp [put, hchild]
            | some child =>
              have hplace : ∀ inner, child.at? (second :: rest) ≠ some (.directory inner) :=
                fun inner hat => h inner (by simp [hchild, hat])
              simpa [put, hchild, holdingAt] using ih hrest hplace
        · -- another entry stays as it is
          cases rest with
          | nil => simp [put, holdingAt, child?_setEntry_of_ne hname]
          | cons second rest =>
            cases hchild : child? first entries with
            | none => simp [put, hchild]
            | some child => simp [put, hchild, holdingAt, child?_setEntry_of_ne hname]

end Node

/-! ## §2 Replacing -/

namespace FileSystem

/-- What a file system is after the file that a move onto `path` reaches was replaced by one with
the given text, and nothing else was changed. -/
def Replaces (path text : String) (before after : FileSystem) : Prop :=
  ∃ place, before.destination path = .ok place
    ∧ after.tree.holdingAt place = some (.file text.toUTF8)
    ∧ (∀ address, address ≠ place →
        after.tree.holdingAt address = before.tree.holdingAt address)
    ∧ after.workingDirectory = before.workingDirectory

/-- A destination is a place in a directory, and no directory itself. -/
theorem destination_spec {files : FileSystem} {path : String} {place : Address}
    (h : files.destination path = .ok place) :
    (∃ directory name entries, place = directory ++ [name]
        ∧ files.tree.at? directory = some (.directory entries))
      ∧ ∀ entries, files.tree.at? place ≠ some (.directory entries) := by
  unfold destination at h
  split at h
  · simp at h
  · dsimp only at h
    split at h
    · simp at h
    · rename_i directory hwalk
      -- the walk to the directory ends in `.`, so it leads to one
      obtain ⟨-, entries, hat⟩ := walk_append_dot hwalk
      split at h
      · simp at h
      · simp at h
      · simp at h
      · rename_i name _ _ _
        split_ifs at h
        split at h
        · simp at h
        · rename_i hplace
          obtain rfl : directory ++ [name] = place := by simpa using h
          exact ⟨⟨directory, name, entries, rfl, hat⟩, fun inner hinner => hplace inner hinner⟩

/-- A text that is replaced is the only thing that changes. -/
theorem replaces_of_replaceText {before after : FileSystem} {path text : String}
    (h : before.replaceText path text = .ok after) : Replaces path text before after := by
  unfold replaceText at h
  dsimp only at h
  split at h
  · simp at h
  · split at h
    · simp at h
    · rename_i place hplace
      obtain rfl := (Except.ok.inj h)
      obtain ⟨⟨directory, name, entries, rfl, hat⟩, hnone⟩ := destination_spec hplace
      refine ⟨_, hplace, ?_, ?_, rfl⟩
      · simp [Node.holdingAt, Node.at?_put_self hat, Node.holding]
      · intro address hne
        exact Node.holdingAt_put_of_ne hne hnone _
  · simp at h

end FileSystem

end UpdateFeed
