import UpdateFeed.FileTree.Lookup
import Mathlib.Tactic.SplitIfs

/-!
# Walking names

A lookup that walks names and then further ones has walked the first ones before it takes up the
others: links put the names of their targets in front, and never touch what is left behind.

- `advance_append`, `walk_append`: walking names in two parts.
- `walk_append_dot`: names that end in `.` lead to a directory.
-/

namespace UpdateFeed

/-! ## §1 Addresses -/

namespace Node

@[simp] theorem at?_file_cons (content : ByteArray) (name : String) (names : Address) :
    at? (name :: names) (.file content) = none := rfl

/-- Below a node that is no directory there is nothing. -/
theorem at?_cons_of_not_directory {node : Node}
    (h : ∀ entries, node ≠ .directory entries) (name : String) (names : Address) :
    node.at? (name :: names) = none := by
  cases node with
  | file content => rfl
  | directory entries => exact absurd rfl (h entries)
  | link target => rfl

theorem at?_append (first second : Address) (tree : Node) :
    tree.at? (first ++ second) = (tree.at? first).bind (at? second) := by
  induction first generalizing tree with
  | nil => simp
  | cons name names ih =>
    cases tree with
    | directory entries =>
      simp only [List.cons_append, at?_cons]
      cases child? name entries with
      | none => rfl
      | some node => exact ih node
    | file content => rfl
    | link target => rfl

end Node

/-! ## §2 Walking in two parts -/

namespace FileSystem

variable {tree : Node}

/-- Names in two parts up to the next link. -/
theorem advance_append (address : Address) (names more : List String) :
    advance tree address (names ++ more) =
      match advance tree address names with
      | .error fault => .error fault
      | .ok (.arrived place) => advance tree place more
      | .ok (.atLink directory target left) => .ok (.atLink directory target (left ++ more)) := by
  induction names generalizing address with
  | nil => rfl
  | cons name names ih =>
    rw [List.cons_append, advance, advance]
    -- the names behind are carried along in each case, and never looked at
    cases tree.at? address with
    | none => rfl
    | some node =>
      cases node with
      | file content => rfl
      | link target => rfl
      | directory entries =>
        dsimp only
        split_ifs
        · exact ih address
        · exact ih address.dropLast
        · rfl
        · cases Node.child? name entries with
          | none => rfl
          | some child =>
            cases child with
            | file content => exact ih (address ++ [name])
            | directory inner => exact ih (address ++ [name])
            | link target => rfl

/-- Names in two parts, links followed: the first part fails for good, or the second one is walked
from the place that the first one leads to. -/
theorem walk_append (tree : Node) (links : Nat) (address : Address) (names : List String) :
    (∃ fault, ∀ more, walk tree links address (names ++ more) = .error fault)
      ∨ ∃ place left, walk tree links address names = .ok place
        ∧ ∀ more, walk tree links address (names ++ more) = walk tree left place more := by
  -- on the links that may still be followed: a link puts its names in front and uses one up
  induction links generalizing address names with
  | zero =>
    cases hadvance : advance tree address names with
    | error fault =>
      refine .inl ⟨fault, fun more => ?_⟩
      rw [walk, advance_append, hadvance]
    | ok progress =>
      cases progress with
      | arrived place =>
        refine .inr ⟨place, 0, ?_, fun more => ?_⟩
        · rw [walk, hadvance]
        · rw [walk, advance_append, hadvance, walk]
      | atLink directory target left =>
        refine .inl ⟨.tooManyLinks, fun more => ?_⟩
        rw [walk, advance_append, hadvance]
  | succ links ih =>
    cases hadvance : advance tree address names with
    | error fault =>
      refine .inl ⟨fault, fun more => ?_⟩
      rw [walk, advance_append, hadvance]
    | ok progress =>
      cases progress with
      | arrived place =>
        refine .inr ⟨place, links + 1, ?_, fun more => ?_⟩
        · rw [walk, hadvance]
        · rw [walk, advance_append, hadvance, walk]
      | atLink directory target left =>
        -- the names behind the link are still behind the names of its target
        have hstep : ∀ more, walk tree (links + 1) address (names ++ more) =
            walk tree links (if Path.isAbsolute target then [] else directory)
              (Path.names target ++ left ++ more) := by
          intro more
          rw [walk, advance_append, hadvance, List.append_assoc]
        rcases ih (if Path.isAbsolute target then [] else directory) (Path.names target ++ left)
          with ⟨fault, hfault⟩ | ⟨place, rest, hplace, hmore⟩
        · exact .inl ⟨fault, fun more => (hstep more).trans (hfault more)⟩
        · refine .inr ⟨place, rest, ?_, fun more => (hstep more).trans (hmore more)⟩
          have hwhole := hstep []
          rw [List.append_nil, List.append_nil] at hwhole
          exact hwhole.trans hplace

/-- The step `.` stays in a directory and goes nowhere else. -/
theorem walk_dot {links : Nat} {address place : Address} :
    walk tree links address ["."] = .ok place ↔
      place = address ∧ ∃ entries, tree.at? address = some (.directory entries) := by
  rw [walk, advance]
  cases tree.at? address with
  | none => simp
  | some node =>
    cases node with
    | file content => simp
    | link target => simp
    | directory entries => simp [advance, eq_comm]

/-- A walk along names that end in `.` leads to a directory. -/
theorem walk_append_dot {links : Nat} {address place : Address} {names : List String}
    (h : walk tree links address (names ++ ["."]) = .ok place) :
    walk tree links address names = .ok place
      ∧ ∃ entries, tree.at? place = some (.directory entries) := by
  rcases walk_append tree links address names with
    ⟨fault, hfault⟩ | ⟨between, left, hbetween, hmore⟩
  · rw [hfault] at h
    cases h
  · rw [hmore] at h
    obtain ⟨rfl, hdirectory⟩ := walk_dot.mp h
    exact ⟨hbetween, hdirectory⟩

end FileSystem

end UpdateFeed
