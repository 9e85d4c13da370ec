import UpdateFeed.Proofs.FileTree.Replacing

/-!
# What a lookup sees of a tree

A lookup reads names, directories and links, and never what is in a file.  The *outline* of a tree
is the tree without the contents of its files: trees with the same outline are walked and listed
alike, and a file that takes the place of another one leaves the outline as it was.

- `walk_congr`: trees that hold the same, but for the contents of files, are walked alike.
- `walk_outline`, `filesBelow_outline`: walks and listings see the outline only.
- `outline_put`: a file that replaces a file keeps the outline.
- `locate_outlined`, `destination_outlined`: paths lead to the same places whatever the files hold.
-/

namespace UpdateFeed

namespace Node

/-! ## §1 Outlines -/

mutual

/-- A tree with all of its files empty. -/
def outline : Node → Node
  | .file _ => .file ByteArray.empty
  | .directory entries => .directory (outlines entries)
  | .link target => .link target

/-- The entries of a directory with all files empty. -/
def outlines : List (String × Node) → List (String × Node)
  | [] => []
  | (name, node) :: entries => (name, node.outline) :: outlines entries

end

@[simp] theorem outline_file (content : ByteArray) :
    (Node.file content).outline = .file ByteArray.empty := by simp [outline]

@[simp] theorem outline_directory (entries : Entries) :
    (Node.directory entries).outline = .directory (outlines entries) := by simp [outline]

@[simp] theorem outline_link (target : String) : (Node.link target).outline = .link target := by
  simp [outline]

theorem child?_outlines (name : String) (entries : Entries) :
    child? name (outlines entries) = (child? name entries).map outline := by
  induction entries with
  | nil => simp [outlines, child?]
  | cons entry entries ih =>
    obtain ⟨first, node⟩ := entry
    simp only [outlines, child?]
    split
    · rfl
    · exact ih

/-- An address leads to the same place in the outline of a tree. -/
theorem at?_outline (address : Address) (tree : Node) :
    tree.outline.at? address = (tree.at? address).map outline := by
  induction address generalizing tree with
  | nil => rfl
  | cons name names ih =>
    cases tree with
    | file content => simp
    | link target => simp [at?]
    | directory entries =>
      rw [outline_directory, at?_cons, at?_cons, child?_outlines]
      cases child? name entries with
      | none => rfl
      | some node => exact ih node

mutual

/-- A listing does not look into the files. -/
theorem filesBelow_outline (depth? : Option Nat) :
    (node : Node) → node.outline.filesBelow depth? = node.filesBelow depth?
  | .file content => by simp [filesBelow]
  | .link target => by simp
  | .directory entries => by
    rw [outline_directory, filesBelow, filesBelow, filesOf_outlines depth? entries]

theorem filesOf_outlines (depth? : Option Nat) :
    (entries : Entries) → filesOf depth? (outlines entries) = filesOf depth? entries
  | [] => by simp [outlines]
  | (name, node) :: entries => by
    have hnode := filesBelow_outline (depth?.map (· - 1)) node
    cases node with
    | file content => simp [outlines, filesOf, filesOf_outlines depth? entries]
    | link target => simp [outlines, filesOf, filesOf_outlines depth? entries]
    | directory inner =>
      rw [outline_directory] at hnode
      simp [outlines, filesOf, filesOf_outlines depth? entries, hnode]

end

/-! ## §2 Files that replace files -/

theorem outlines_setEntry {name : String} {old node : Node} {entries : Entries}
    (h : child? name entries = some old) (heq : node.outline = old.outline) :
    outlines (setEntry name node entries) = outlines entries := by
  induction entries with
  | nil => simp [child?] at h
  | cons entry entries ih =>
    obtain ⟨first, other⟩ := entry
    unfold child? at h
    unfold setEntry
    split_ifs at h ⊢ with hname
    · obtain rfl := Option.some.inj h
      simp [outlines, heq, hname]
    · simp [outlines, ih h]

/-- A file that takes the place of a file keeps the outline. -/
theorem outline_put {tree : Node} {place : Address} {old : ByteArray}
    (h : tree.at? place = some (.file old)) (content : ByteArray) :
    (tree.put place (.file content)).outline = tree.outline := by
  induction place generalizing tree with
  | nil =>
    obtain rfl := Option.some.inj h
    simp [put]
  | cons name names ih =>
    cases tree with
    | file other => simp at h
    | link target => simp [at?] at h
    | directory entries =>
      obtain ⟨child, hchild, hat⟩ := Option.bind_eq_some_iff.mp h
      cases names with
      | nil =>
        -- the file stands in this directory
        obtain rfl := Option.some.inj hat
        rw [put, outline_directory, outline_directory]
        rw [outlines_setEntry hchild (by simp)]
      | cons second rest =>
        rw [put, hchild]
        · dsimp only
          rw [outline_directory, outline_directory, outlines_setEntry hchild (ih hat)]
        · simp

end Node

/-- What a place holds, without the content of a file. -/
def Holding.emptied : Holding → Holding
  | .file _ => .file ByteArray.empty
  | holding => holding

namespace FileSystem

/-! ## §3 Lookups -/

/-- A file system with all of its files empty. -/
def outlined (files : FileSystem) : FileSystem := { files with tree := files.tree.outline }

section

variable {tree other : Node}

/-- A step of a walk looks at what is held at the place that is reached and at the next one, and at
nothing of what is in a file. -/
theorem advance_cons (tree : Node) (address : Address) (name : String) (names : List String) :
    advance tree address (name :: names) =
      match (tree.holdingAt address).map Holding.emptied with
      | some .directory =>
        if name = "." then advance tree address names
        else if name = ".." then advance tree address.dropLast names
        else if nameLimit < name.utf8ByteSize then .error .nameTooLong
        else
          match (tree.holdingAt (address ++ [name])).map Holding.emptied with
          | none => .error .notFound
          | some (.link target) => .ok (.atLink address target names)
          | some _ => advance tree (address ++ [name]) names
      | _ => .error .notADirectory := by
  rw [advance, Node.holdingAt, Node.holdingAt, Node.at?_append]
  cases tree.at? address with
  | none => rfl
  | some node =>
    cases node with
    | file content => rfl
    | link target => rfl
    | directory entries =>
      simp only [Option.map_some, Node.holding, Holding.emptied, Option.bind_some, Node.at?_cons]
      cases Node.child? name entries with
      | none => rfl
      | some child => cases child <;> rfl

/-- Trees that hold the same, but for the contents of files, are walked alike. -/
theorem advance_congr (h : ∀ address, (other.holdingAt address).map Holding.emptied =
    (tree.holdingAt address).map Holding.emptied) (address : Address) (names : List String) :
    advance other address names = advance tree address names := by
  induction names generalizing address with
  | nil => rfl
  | cons name names ih => simp only [advance_cons, h, ih]

/-- The same with links followed. -/
theorem walk_congr (h : ∀ address, (other.holdingAt address).map Holding.emptied =
    (tree.holdingAt address).map Holding.emptied) (links : Nat) (address : Address)
    (names : List String) : walk other links address names = walk tree links address names := by
  induction links generalizing address names with
  | zero => rw [walk, walk, advance_congr h]
  | succ links ih =>
    rw [walk, walk, advance_congr h]
    cases advance tree address names with
    | error fault => rfl
    | ok progress =>
      cases progress with
      | arrived place => rfl
      | atLink directory target left => exact ih _ _

/-- A walk sees the outline of a tree only. -/
theorem walk_outline (tree : Node) (links : Nat) (address : Address) (names : List String) :
    walk tree.outline links address names = walk tree links address names := by
  apply walk_congr
  intro address
  rw [Node.holdingAt, Node.holdingAt, Node.at?_outline]
  cases tree.at? address with
  | none => rfl
  | some node => cases node <;> simp [Node.holding, Holding.emptied]

end

variable (files : FileSystem)

theorem locate_outlined (path : String) : files.outlined.locate path = files.locate path := by
  unfold locate
  cases pathFault? path with
  | some fault => rfl
  | none => exact walk_outline files.tree linkLimit (files.start path) (Path.names path)

theorem node?_outlined (path : String) :
    files.outlined.node? path = (files.node? path).map Node.outline := by
  unfold node?
  rw [locate_outlined]
  cases files.locate path with
  | error fault => rfl
  | ok place =>
    dsimp only [outlined]
    rw [Node.at?_outline]
    cases files.tree.at? place <;> rfl

theorem isDirectory_outlined (path : String) :
    files.outlined.isDirectory path = files.isDirectory path := by
  unfold isDirectory
  rw [node?_outlined]
  cases files.node? path with
  | error fault => rfl
  | ok node => cases node <;> simp [Except.map]

/-- A move onto a path reaches the same place whatever the files hold. -/
theorem destination_outlined (path : String) :
    files.outlined.destination path = files.destination path := by
  unfold destination
  cases pathFault? path with
  | some fault => rfl
  | none =>
    dsimp only
    rw [show files.outlined.start path = files.start path from rfl]
    rw [show files.outlined.tree = files.tree.outline from rfl, walk_outline]
    cases walk files.tree linkLimit (files.start path)
        ((Path.plainNames path).dropLast ++ ["."]) with
    | error fault => rfl
    | ok directory =>
      dsimp only
      split
      · rfl
      · rfl
      · rfl
      · rename_i name _ _ _
        -- at the last name only the kind of the node counts, and the outline keeps it
        rw [Node.at?_outline]
        cases files.tree.at? (directory ++ [name]) with
        | none => rfl
        | some node => cases node <;> simp

end FileSystem

end UpdateFeed
