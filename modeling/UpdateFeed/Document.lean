import UpdateFeed.FileTree.Replace
import UpdateFeed.Json.Printer
import UpdateFeed.Json.Reader

/-!
# JSON files

A document is a JSON value together with the path of its file.  It also remembers whether the file
ended in a line break, so that writing it back changes nothing but the members that were edited.

- `putString_eq_ok_iff`: an edit succeeds exactly when the value can be edited, and changes only
  the value.
-/

namespace UpdateFeed

/-! ## §1 Documents and their faults -/

/-- A JSON value that belongs to a file. -/
structure Document where
  path : String
  root : Json
  endsInLineBreak : Bool
  deriving Inhabited

/-- Why a document cannot be read, edited or written. -/
inductive DocumentFault where
  /-- A file or directory at the path cannot be used. -/
  | file (path : String) (fault : FileFault)
  /-- The text at the path is not a JSON document. -/
  | notJson (path detail : String)
  /-- An edit does not find the object that it is for. -/
  | address (path : String) (fault : Json.AddressFault)
  deriving DecidableEq, Repr

namespace Document

/-- A list of keys as one text, each behind a slash. -/
def pointer (keys : List String) : String :=
  String.join (keys.map ("/" ++ ·))

end Document

/-- The wording of a fault. -/
def DocumentFault.message : DocumentFault → String
  | .file path fault => "IO error on " ++ path ++ ": " ++ fault.message
  | .notJson path detail => "Invalid JSON in " ++ path ++ ": " ++ detail
  | .address path (.noObject keys) =>
    let place := Document.pointer keys
    path ++ ": expected a JSON object at " ++ (if place = "" then "/" else place)
  | .address path (.noMember keys) => path ++ ": missing key " ++ Document.pointer keys

namespace Document

/-! ## §2 Reading, editing, writing -/

/-- Reads a document from a text. -/
def ofText (path content : String) : Except DocumentFault Document :=
  match Json.parse content with
  | .ok root => .ok ⟨path, root, content.toList.getLast? = some '\n'⟩
  | .error detail => .error (.notJson path detail)

/-- Reads the document of a file. -/
def ofFile (files : FileSystem) (path : String) : Except DocumentFault Document :=
  match files.readText path with
  | .ok content => ofText path content
  | .error fault => .error (.file path fault)

/-- The keys of the object at a list of keys. -/
def keysAt (document : Document) (keys : List String) : Except DocumentFault (List String) :=
  match document.root.objectAt keys with
  | .ok members => .ok (members.map Prod.fst)
  | .error fault => .error (.address document.path fault)

/-- Writes a string member into the object at a list of keys. -/
def putString (document : Document) (keys : List String) (leaf text : String) :
    Except DocumentFault Document :=
  match document.root.putString leaf text keys with
  | .ok root => .ok { document with root }
  | .error fault => .error (.address document.path fault)

/-- An edit succeeds exactly when the value can be edited, and changes only the value. -/
theorem putString_eq_ok_iff {document changed : Document} {keys : List String}
    {leaf text : String} :
    document.putString keys leaf text = .ok changed ↔
      ∃ root, document.root.putString leaf text keys = .ok root ∧
        changed = { document with root } := by
  unfold putString
  cases document.root.putString leaf text keys with
  | ok root => simp [eq_comm]
  | error fault => simp

/-- The text of a document as it stands in its file. -/
def render (document : Document) : String :=
  if document.endsInLineBreak then document.root.render ++ "\n" else document.root.render

/-- Writes a document back to its file. -/
def save (document : Document) (files : FileSystem) : Except DocumentFault FileSystem :=
  match files.replaceText document.path document.render with
  | .ok files => .ok files
  | .error (.inDirectory directory fault) => .error (.file directory fault)
  | .error (.onPath fault) => .error (.file document.path fault)

end Document

end UpdateFeed
