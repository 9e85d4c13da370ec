import UpdateFeed.FileTree.Basic

/-!
# What changed in a tree

A tree as a list of its places, each with what it holds apart from the places below it, and the
places at which two trees differ.
-/

namespace UpdateFeed

/-- What a place holds by itself. -/
inductive Holding where
  | file (content : ByteArray)
  | directory
  | link (target : String)

/-- Whether two places hold the same. -/
def Holding.agrees : Holding → Holding → Bool
  | .file a, .file b => a.data.toList == b.data.toList
  | .directory, .directory => true
  | .link a, .link b => a == b
  | _, _ => false

namespace Node

mutual

/-- The places of a tree below its top, a directory before what is in it. -/
def places : Node → List (Address × Holding)
  | .directory entries => placesOf entries
  | _ => []

/-- The places in and below the entries of a directory. -/
def placesOf : List (String × Node) → List (Address × Holding)
  | [] => []
  | (name, node) :: entries =>
    let here : Holding :=
      match node with
      | .file content => .file content
      | .directory _ => .directory
      | .link target => .link target
    ([name], here) :: (places node).map (fun (address, holding) => (name :: address, holding))
      ++ placesOf entries

end

/-- The places of `after` that are new or hold something else than in `before`, and the places of
`before` that are gone. -/
def changes (before after : Node) : List (Address × Option Holding) :=
  let old := before.places
  let new := after.places
  (new.filter fun (address, holding) => !(old.lookup address).any holding.agrees).map
      (fun (address, holding) => (address, some holding))
    ++ (old.filter fun (address, _) => (new.lookup address).isNone).map
      (fun (address, _) => (address, none))

end Node

end UpdateFeed
