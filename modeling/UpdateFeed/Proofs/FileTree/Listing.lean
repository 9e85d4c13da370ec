import UpdateFeed.FileTree.Lookup
import Mathlib.Tactic.SplitIfs

/-!
# Listing the files of a tree

A tree as it stands on a disk has names that a lookup can find: not empty, no dots, no slash, and
each of them once in its directory.  The listing of its files and the following of addresses are two
views of the same thing, since neither goes through a link.

- `Node.isNamed`, `Node.isOrdinary`: trees with such names, the latter without links.
- `mem_filesBelow`: the listed addresses are those of files, down to the depth.
- `nodup_filesBelow`: no address is listed twice.
-/

namespace UpdateFeed

namespace Node

/-! ## §1 Ordinary trees -/

/-- Whether a name can stand in a directory. -/
def isOrdinaryName (name : String) : Bool :=
  name ≠ "" && name ≠ "." && name ≠ ".." && !name.toList.contains '/'
    && !name.toList.contains '\x00' && name.utf8ByteSize ≤ FileSystem.nameLimit

mutual

/-- Whether a tree has no links, and in each directory different names that can stand there. -/
def isOrdinary : Node → Bool
  | .file _ => true
  | .link _ => false
  | .directory entries => areOrdinary entries

/-- Whether the entries of a directory are ordinary. -/
def areOrdinary : List (String × Node) → Bool
  | [] => true
  | (name, node) :: entries =>
    isOrdinaryName name && (child? name entries).isNone && node.isOrdinary && areOrdinary entries

end

mutual

/-- Whether a tree has in each directory different names that can stand there.  There may be links
in it. -/
def isNamed : Node → Bool
  | .directory entries => areNamed entries
  | _ => true

/-- Whether the entries of a directory are named so. -/
def areNamed : List (String × Node) → Bool
  | [] => true
  | (name, node) :: entries =>
    isOrdinaryName name && (child? name entries).isNone && node.isNamed && areNamed entries

end

theorem isNamed_directory (entries : Entries) :
    (Node.directory entries).isNamed = areNamed entries := by
  simp [isNamed]

theorem areNamed_cons (name : String) (node : Node) (entries : Entries) :
    areNamed ((name, node) :: entries) = true ↔
      isOrdinaryName name = true ∧ child? name entries = none ∧ node.isNamed = true
        ∧ areNamed entries = true := by
  simp [areNamed, and_assoc]

theorem isOrdinary_directory (entries : Entries) :
    (Node.directory entries).isOrdinary = areOrdinary entries := by
  simp [isOrdinary]

theorem areOrdinary_cons (name : String) (node : Node) (entries : Entries) :
    areOrdinary ((name, node) :: entries) = true ↔
      isOrdinaryName name = true ∧ child? name entries = none ∧ node.isOrdinary = true
        ∧ areOrdinary entries = true := by
  simp [areOrdinary, and_assoc]

mutual

/-- A tree without links is named if it is ordinary. -/
theorem isNamed_of_isOrdinary : (node : Node) → node.isOrdinary = true → node.isNamed = true
  | .file content, _ => by simp [isNamed]
  | .link target, _ => by simp [isNamed]
  | .directory entries, h => by
    rw [isOrdinary_directory] at h
    rw [isNamed_directory]
    exact areNamed_of_areOrdinary entries h

theorem areNamed_of_areOrdinary :
    (entries : Entries) → areOrdinary entries = true → areNamed entries = true
  | [], _ => by simp [areNamed]
  | (name, node) :: entries, h => by
    obtain ⟨hname, hfresh, hnode, hentries⟩ := (areOrdinary_cons name node entries).mp h
    have hnamed := areNamed_of_areOrdinary entries hentries
    exact (areNamed_cons name node entries).mpr
      ⟨hname, hfresh, isNamed_of_isOrdinary node hnode, hnamed⟩

end

theorem mem_of_child? {name : String} {entries : Entries} {node : Node}
    (h : child? name entries = some node) : (name, node) ∈ entries := by
  induction entries with
  | nil => simp [child?] at h
  | cons entry entries ih =>
    obtain ⟨first, other⟩ := entry
    unfold child? at h
    split_ifs at h with heq
    · obtain rfl := Option.some.inj h
      simp [heq]
    · exact List.mem_cons_of_mem _ (ih h)

theorem child?_eq_none_iff {name : String} {entries : Entries} :
    child? name entries = none ↔ name ∉ entries.map Prod.fst := by
  induction entries with
  | nil => simp [child?]
  | cons entry entries ih =>
    obtain ⟨first, node⟩ := entry
    unfold child?
    split_ifs with heq
    · simp [heq]
    · simp [ih, Ne.symm heq]

/-- The entries of a directory are named when each of them is, and no name is there twice. -/
theorem areNamed_iff {entries : Entries} :
    areNamed entries = true ↔
      (∀ entry ∈ entries, isOrdinaryName entry.1 = true ∧ entry.2.isNamed = true)
        ∧ (entries.map Prod.fst).Nodup := by
  induction entries with
  | nil => simp [areNamed]
  | cons entry entries ih =>
    obtain ⟨name, node⟩ := entry
    rw [areNamed_cons, ih, child?_eq_none_iff, List.forall_mem_cons, List.map_cons,
      List.nodup_cons]
    simp only [and_assoc, and_left_comm]

/-- What stands in a named directory is named. -/
theorem isNamed_of_child? {name : String} {entries : Entries} {node : Node}
    (h : areNamed entries = true) (hchild : child? name entries = some node) :
    isOrdinaryName name = true ∧ node.isNamed = true :=
  (areNamed_iff.mp h).1 _ (mem_of_child? hchild)

/-- What stands in an ordinary directory is ordinary. -/
theorem isOrdinary_of_child? {name : String} {entries : Entries} {node : Node}
    (h : areOrdinary entries = true) (hchild : child? name entries = some node) :
    isOrdinaryName name = true ∧ node.isOrdinary = true := by
  induction entries with
  | nil => simp [child?] at hchild
  | cons entry entries ih =>
    obtain ⟨first, other⟩ := entry
    obtain ⟨hname, _, hnode, hentries⟩ := (areOrdinary_cons first other entries).mp h
    unfold child? at hchild
    split_ifs at hchild with heq
    · obtain rfl := Option.some.inj hchild
      subst heq
      exact ⟨hname, hnode⟩
    · exact ih hentries hchild

/-- What holds of a tree, and of what stands in a directory that it holds of, holds of what the tree
has at an address. -/
theorem of_at? {P : Node → Prop} {tree node : Node} {address : Address}
    (hchild : ∀ {name entries child}, P (.directory entries) → child? name entries = some child →
      isOrdinaryName name = true ∧ P child)
    (h : P tree) (hat : tree.at? address = some node) :
    (∀ name ∈ address, isOrdinaryName name = true) ∧ P node := by
  induction address generalizing tree with
  | nil =>
    obtain rfl := Option.some.inj hat
    exact ⟨by simp, h⟩
  | cons name names ih =>
    cases tree with
    | file content => simp [at?] at hat
    | link target => simp [at?] at hat
    | directory entries =>
      obtain ⟨child, hfirst, hat⟩ := Option.bind_eq_some_iff.mp hat
      obtain ⟨hname, hbelow⟩ := hchild h hfirst
      obtain ⟨hnames, hnode⟩ := ih hbelow hat
      exact ⟨List.forall_mem_cons.mpr ⟨hname, hnames⟩, hnode⟩

/-- What an ordinary tree has at an address is ordinary, and so are the names of the address. -/
theorem isOrdinary_of_at? {tree node : Node} {address : Address} (h : tree.isOrdinary = true)
    (hat : tree.at? address = some node) :
    (∀ name ∈ address, isOrdinaryName name = true) ∧ node.isOrdinary = true := by
  apply of_at? (P := fun tree => tree.isOrdinary = true) _ h hat
  intro name entries child hentries hchild
  rw [isOrdinary_directory] at hentries
  exact isOrdinary_of_child? hentries hchild

/-- What a named tree has at an address is named, and the names of the address are ordinary. -/
theorem isNamed_of_at? {tree node : Node} {address : Address} (h : tree.isNamed = true)
    (hat : tree.at? address = some node) :
    (∀ name ∈ address, isOrdinaryName name = true) ∧ node.isNamed = true := by
  apply of_at? (P := fun tree => tree.isNamed = true) _ h hat
  intro name entries child hentries hchild
  rw [isNamed_directory] at hentries
  exact isNamed_of_child? hentries hchild

/-! ## §2 Listed files -/

/-- Whether an address goes down no further than a depth, if there is one. -/
def reaches (depth? : Option Nat) (address : Address) : Bool :=
  depth?.all (address.length ≤ ·)

theorem reaches_cons {depth? : Option Nat} {name : String} {names : Address}
    (h : depth? ≠ some 0) :
    reaches depth? (name :: names) = reaches (depth?.map (· - 1)) names := by
  cases depth? with
  | none => rfl
  | some depth =>
    have hpos : depth ≠ 0 := fun hzero => h (by rw [hzero])
    simp only [reaches, Option.all_some, Option.map_some, List.length_cons, decide_eq_decide]
    omega

theorem reaches_nil (depth? : Option Nat) : reaches depth? [] = true := by
  cases depth? <;> simp [reaches]

theorem mem_filesOf_cons {depth? : Option Nat} {name : String} {node : Node} {entries : Entries}
    {address : Address} :
    address ∈ filesOf depth? ((name, node) :: entries) ↔
      (∃ content, node = .file content ∧ address = [name])
        ∨ (∃ names ∈ node.filesBelow (depth?.map (· - 1)), address = name :: names)
        ∨ address ∈ filesOf depth? entries := by
  cases node <;> simp [filesOf, filesBelow, eq_comm]

/-- Where an address leads in a directory with one more entry. -/
theorem at?_directory_cons {name : String} {node : Node} {entries : Entries} {address : Address} :
    (Node.directory ((name, node) :: entries)).at? address =
      match address with
      | [] => some (.directory ((name, node) :: entries))
      | first :: names =>
        if name = first then node.at? names else (Node.directory entries).at? (first :: names) := by
  cases address with
  | nil => rfl
  | cons first names =>
    simp only [at?_cons, child?]
    split_ifs with h
    · rfl
    · rfl

mutual

/-- The listed addresses are those that lead to a file within the depth. -/
theorem mem_filesBelow {depth? : Option Nat} {address : Address} :
    (node : Node) → node.isNamed = true →
      (address ∈ node.filesBelow depth? ↔
        address ≠ [] ∧ reaches depth? address = true
          ∧ ∃ content, node.at? address = some (.file content))
  | .file content, _ => by
    cases address <;> simp [filesBelow, at?]
  | .link target, _ => by
    cases address <;> simp [filesBelow, at?]
  | .directory entries, h => by
    rw [isNamed_directory] at h
    by_cases hdepth : depth? = some 0
    · -- at depth zero nothing is listed, and only the empty address is reached
      subst hdepth
      cases address <;> simp [filesBelow, reaches]
    · rw [filesBelow, if_neg hdepth]
      exact mem_filesOf hdepth entries h

/-- The same for the entries of a directory. -/
theorem mem_filesOf {depth? : Option Nat} {address : Address} (hdepth : depth? ≠ some 0) :
    (entries : Entries) → areNamed entries = true →
      (address ∈ filesOf depth? entries ↔
        address ≠ [] ∧ reaches depth? address = true
          ∧ ∃ content, (Node.directory entries).at? address = some (.file content))
  | [], _ => by
    cases address <;> simp [filesOf, at?, child?]
  | (name, node) :: entries, h => by
    obtain ⟨_, hfresh, hnode, hentries⟩ := (areNamed_cons name node entries).mp h
    rw [mem_filesOf_cons, mem_filesOf hdepth entries hentries, at?_directory_cons]
    cases address with
    | nil => simp
    | cons first names =>
      have hbelow : ∀ names, names ∈ node.filesBelow (depth?.map (· - 1)) ↔
          names ≠ [] ∧ reaches (depth?.map (· - 1)) names = true
            ∧ ∃ content, node.at? names = some (.file content) :=
        fun names => mem_filesBelow node hnode
      by_cases hname : name = first
      · subst hname
        have hlater : (Node.directory entries).at? (name :: names) = none := by
          simp [hfresh]
        -- the name is this entry's alone, so the address leads into its node or nowhere
        cases names with
        | nil =>
          simp [hlater, hbelow, reaches_cons hdepth, reaches_nil]
        | cons second rest =>
          simp [hlater, hbelow, reaches_cons hdepth]
      · -- the entry is not the one that the address goes through
        have hfirst : ¬ first = name := fun heq => hname heq.symm
        simp [hname, hfirst]

end

/-- The first name of a listed address is that of an entry. -/
theorem exists_of_mem_filesOf {depth? : Option Nat} {entries : Entries} {address : Address}
    (h : address ∈ filesOf depth? entries) :
    ∃ name names, address = name :: names ∧ child? name entries ≠ none := by
  induction entries with
  | nil => simp [filesOf] at h
  | cons entry entries ih =>
    obtain ⟨name, node⟩ := entry
    rcases mem_filesOf_cons.mp h with ⟨content, _, rfl⟩ | ⟨names, _, rfl⟩ | hlater
    · exact ⟨name, [], rfl, by simp [child?]⟩
    · exact ⟨name, names, rfl, by simp [child?]⟩
    · obtain ⟨first, names, rfl, hchild⟩ := ih hlater
      refine ⟨first, names, rfl, ?_⟩
      unfold child?
      split_ifs
      · simp
      · exact hchild

mutual

/-- No file is listed twice. -/
theorem nodup_filesBelow {depth? : Option Nat} :
    (node : Node) → node.isNamed = true → (node.filesBelow depth?).Nodup
  | .file content, _ => by simp [filesBelow]
  | .link target, _ => by simp [filesBelow]
  | .directory entries, h => by
    rw [isNamed_directory] at h
    unfold filesBelow
    split_ifs
    · exact List.nodup_nil
    · exact nodup_filesOf entries h

theorem nodup_filesOf {depth? : Option Nat} :
    (entries : Entries) → areNamed entries = true → (filesOf depth? entries).Nodup
  | [], _ => by simp [filesOf]
  | (name, node) :: entries, h => by
    obtain ⟨_, hfresh, hnode, hentries⟩ := (areNamed_cons name node entries).mp h
    have hlater : (filesOf depth? entries).Nodup := nodup_filesOf entries hentries
    have hbelow : ((node.filesBelow (depth?.map (· - 1))).map (name :: ·)).Nodup := by
      refine List.Pairwise.map _ (fun first second hne => ?_) (nodup_filesBelow node hnode)
      exact fun heq => hne (List.cons.inj heq).2
    -- an address that is listed later begins with the name of another entry
    have hother : ∀ names, name :: names ∉ filesOf depth? entries := by
      intro names hmem
      obtain ⟨first, rest, heq, hchild⟩ := exists_of_mem_filesOf hmem
      obtain ⟨rfl, -⟩ := List.cons.inj heq
      exact hchild hfresh
    cases node with
    | file content =>
      rw [filesOf]
      exact List.nodup_cons.mpr ⟨hother [], hlater⟩
    | link target => simpa [filesOf, filesBelow] using hlater
    | directory inner =>
      rw [filesOf]
      · refine List.nodup_append.mpr ⟨hbelow, hlater, fun address hmem other hothermem heq => ?_⟩
        obtain ⟨names, _, rfl⟩ := List.mem_map.mp hmem
        exact hother names (heq ▸ hothermem)
      · intro content heq
        cases heq

end

end Node

end UpdateFeed
