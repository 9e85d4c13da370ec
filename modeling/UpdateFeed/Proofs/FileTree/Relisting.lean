import UpdateFeed.Proofs.FileTree.Agreement
import UpdateFeed.Proofs.FileTree.Listing

/-!
# Trees in another order

The entries of a directory come in no order of their own.  Two trees are relisted if they differ at
most in the order of the entries of their directories.  Then they hold the same at every address, so
every path leads to the same place and gives the same text, and below that place the same files are
listed, if not in the same order.

- `Relisted`: trees and file systems with their directories in another order.
- `Node.Relisted.holdingAt`: relisted trees hold the same.
- `Relisted.node?_cases`, `Relisted.readText`: what paths lead to and what they give to be read.
- `Node.mem_filesBelow_congr`: nodes that hold the same list the same files.
-/

namespace UpdateFeed

/-! ## §1 Trees -/

namespace Node

mutual

/-- Whether two trees differ at most in the order of the entries of their directories. -/
inductive Relisted : Node → Node → Prop
  | file (content : ByteArray) : Relisted (.file content) (.file content)
  | link (target : String) : Relisted (.link target) (.link target)
  | directory {entries others listed : Entries} (hentries : EntriesRelisted entries others)
      (hperm : others.Perm listed) : Relisted (.directory entries) (.directory listed)

/-- Whether two lists of entries differ at most below their entries. -/
inductive EntriesRelisted : Entries → Entries → Prop
  | nil : EntriesRelisted [] []
  | cons (name : String) {node other : Node} {entries others : Entries}
      (hnode : Relisted node other) (hentries : EntriesRelisted entries others) :
      EntriesRelisted ((name, node) :: entries) ((name, other) :: others)

end

/-- Where no name stands twice, the node of a name is that of its entry. -/
theorem child?_eq_some_iff {name : String} {node : Node} {entries : Entries}
    (h : (entries.map Prod.fst).Nodup) :
    child? name entries = some node ↔ (name, node) ∈ entries := by
  refine ⟨mem_of_child?, fun hmem => ?_⟩
  induction entries with
  | nil => cases hmem
  | cons entry entries ih =>
    obtain ⟨first, other⟩ := entry
    rw [List.map_cons, List.nodup_cons] at h
    rcases List.mem_cons.mp hmem with heq | hmem
    · obtain ⟨rfl, rfl⟩ := Prod.mk.inj heq
      simp [child?]
    · have hne : first ≠ name := by
        rintro rfl
        exact h.1 (List.mem_map.mpr ⟨_, hmem, rfl⟩)
      rw [child?, if_neg hne]
      exact ih h.2 hmem

theorem child?_of_perm {entries listed : Entries} (hperm : entries.Perm listed)
    (h : (entries.map Prod.fst).Nodup) (name : String) :
    child? name listed = child? name entries := by
  have hlisted : (listed.map Prod.fst).Nodup := (hperm.map Prod.fst).nodup_iff.mp h
  apply Option.ext
  intro node
  rw [child?_eq_some_iff hlisted, child?_eq_some_iff h, hperm.mem_iff]

theorem holdingAt_cons (name : String) (names : Address) (entries : Entries) :
    holdingAt (name :: names) (.directory entries) =
      (child? name entries).bind (holdingAt names) := by
  rw [holdingAt, at?_cons]
  cases child? name entries <;> rfl

mutual

/-- A relisted tree is named like the other one, and holds the same at every address. -/
theorem Relisted.spec {tree other : Node} :
    Relisted tree other → tree.isNamed = true →
      other.isNamed = true ∧ ∀ address, other.holdingAt address = tree.holdingAt address
  | .file content, h => ⟨h, fun _ => rfl⟩
  | .link target, h => ⟨h, fun _ => rfl⟩
  | .directory hentries hperm, h => by
    rw [isNamed_directory] at h
    obtain ⟨hnamed, hholding⟩ := hentries.spec h
    obtain ⟨hall, hnodup⟩ := areNamed_iff.mp hnamed
    constructor
    · rw [isNamed_directory, areNamed_iff]
      refine ⟨fun entry hentry => hall entry (hperm.mem_iff.mpr hentry), ?_⟩
      exact (hperm.map Prod.fst).nodup_iff.mp hnodup
    · intro address
      cases address with
      | nil => rfl
      | cons name names =>
        rw [holdingAt_cons, child?_of_perm hperm hnodup, ← holdingAt_cons]
        exact hholding (name :: names)

theorem EntriesRelisted.spec {entries others : Entries} :
    EntriesRelisted entries others → areNamed entries = true →
      areNamed others = true
        ∧ ∀ address, (Node.directory others).holdingAt address =
          (Node.directory entries).holdingAt address
  | .nil, h => ⟨h, fun _ => rfl⟩
  | @EntriesRelisted.cons name node other entries others hnode hentries, h => by
    obtain ⟨hname, hfresh, hnamed, hrest⟩ := (areNamed_cons name node entries).mp h
    obtain ⟨hotherNamed, hother⟩ := hnode.spec hnamed
    obtain ⟨hothersNamed, hothers⟩ := hentries.spec hrest
    -- the name is new among the other entries too, since they hold nothing there either
    have hotherFresh : child? name others = none := by
      have hnone := hothers [name]
      rw [holdingAt_cons, holdingAt_cons, hfresh] at hnone
      cases hchild : child? name others with
      | none => rfl
      | some child => simp [hchild, holdingAt] at hnone
    refine ⟨(areNamed_cons _ _ _).mpr ⟨hname, hotherFresh, hotherNamed, hothersNamed⟩, ?_⟩
    intro address
    cases address with
    | nil => rfl
    | cons first names =>
      rw [holdingAt_cons, holdingAt_cons, child?, child?]
      split_ifs
      · exact hother names
      · rw [← holdingAt_cons, ← holdingAt_cons]
        exact hothers (first :: names)

end

theorem holdingAt_append (first second : Address) (tree : Node) :
    tree.holdingAt (first ++ second) = (tree.at? first).bind (holdingAt second) := by
  rw [holdingAt, at?_append]
  cases tree.at? first <;> rfl

/-- Named nodes that hold the same list the same files. -/
theorem mem_filesBelow_congr {node other : Node} (hnode : node.isNamed = true)
    (hother : other.isNamed = true)
    (h : ∀ address, other.holdingAt address = node.holdingAt address) (depth? : Option Nat)
    (address : Address) : address ∈ other.filesBelow depth? ↔ address ∈ node.filesBelow depth? := by
  rw [mem_filesBelow other hother, mem_filesBelow node hnode]
  simp only [← holdingAt_eq_file_iff, h]

end Node

/-! ## §2 File systems -/

/-- Whether two file systems differ at most in the order in which their directories are listed. -/
structure Relisted (files other : FileSystem) : Prop where
  tree : Node.Relisted files.tree other.tree
  workingDirectory : other.workingDirectory = files.workingDirectory

namespace Relisted

open FileSystem

variable {files other : FileSystem}

theorem holdingAt (h : Relisted files other) (hnamed : files.tree.isNamed = true)
    (address : Address) : other.tree.holdingAt address = files.tree.holdingAt address :=
  (h.tree.spec hnamed).2 address

/-- A path leads to the same place. -/
theorem locate (h : Relisted files other) (hnamed : files.tree.isNamed = true) (path : String) :
    other.locate path = files.locate path := by
  have hstart : other.start path = files.start path := by
    rw [start, start, h.workingDirectory]
  unfold FileSystem.locate
  cases pathFault? path with
  | some fault => rfl
  | none =>
    dsimp only
    rw [hstart]
    apply walk_congr
    intro address
    rw [h.holdingAt hnamed]

/-- A path gives the same text, or fails the same way. -/
theorem readText (h : Relisted files other) (hnamed : files.tree.isNamed = true) (path : String) :
    other.readText path = files.readText path := by
  unfold FileSystem.readText
  rw [readBytes_eq, readBytes_eq, h.locate hnamed]
  cases files.locate path with
  | error fault => rfl
  | ok place =>
    dsimp only
    rw [h.holdingAt hnamed]

/-- A path leads nowhere in both file systems, or to named nodes that hold the same. -/
theorem node?_cases (h : Relisted files other) (hnamed : files.tree.isNamed = true)
    (path : String) :
    (∃ fault, files.node? path = .error fault ∧ other.node? path = .error fault)
      ∨ ∃ node relisted, files.node? path = .ok node ∧ other.node? path = .ok relisted
        ∧ node.isNamed = true ∧ relisted.isNamed = true
        ∧ ∀ address, relisted.holdingAt address = node.holdingAt address := by
  unfold node?
  rw [h.locate hnamed]
  cases files.locate path with
  | error fault => exact .inl ⟨fault, rfl, rfl⟩
  | ok place =>
    have hplace := h.holdingAt hnamed place
    dsimp only
    cases hnode : files.tree.at? place with
    | none =>
      refine .inl ⟨.notFound, rfl, ?_⟩
      rw [Node.holdingAt, Node.holdingAt, hnode] at hplace
      rw [Option.map_eq_none_iff.mp hplace]
      rfl
    | some node =>
      rw [Node.holdingAt, Node.holdingAt, hnode] at hplace
      obtain ⟨relisted, hrelisted, -⟩ := Option.map_eq_some_iff.mp hplace
      refine .inr ⟨node, relisted, rfl, by rw [hrelisted]; rfl, ?_, ?_, ?_⟩
      · exact (Node.isNamed_of_at? hnamed hnode).2
      · exact (Node.isNamed_of_at? (h.tree.spec hnamed).1 hrelisted).2
      · intro address
        -- what is held below the place is held by the whole tree at the longer address
        have hbelow := h.holdingAt hnamed (place ++ address)
        rw [Node.holdingAt_append, Node.holdingAt_append, hnode, hrelisted] at hbelow
        exact hbelow

end Relisted

end UpdateFeed
