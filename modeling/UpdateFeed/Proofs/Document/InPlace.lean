import UpdateFeed.Document
import UpdateFeed.Proofs.Json.Replacement

/-!
# Editing a document in its place

A document is edited in its place by calls, one after the other.  A call first finds the object that
it is for, and writes its member only then, so a call that fails has changed nothing.

- `setString_eq`: a call answers what the edit gives, and leaves the edited document or the old one.
- `afterCalls`: the document after some calls, whether they succeed or fail.
-/

namespace UpdateFeed.Document

variable {document changed : Document} {keys : List String} {leaf text : String}
  {fault : DocumentFault}

/-- Sets a string member of a document in its place: the answer, and the document behind it. -/
def setString (document : Document) (keys : List String) (leaf text : String) :
    Except DocumentFault Unit × Document :=
  match document.root.objectAt keys with
  | .ok members =>
    let object := Json.object (Json.assign leaf (.string text) members)
    (.ok (), { document with root := document.root.replaceAt keys object })
  | .error fault => (.error (.address document.path fault), document)

/-- A call answers what the edit gives.  Behind a failure the document is what it was. -/
theorem setString_eq (document : Document) (keys : List String) (leaf text : String) :
    document.setString keys leaf text =
      match document.putString keys leaf text with
      | .ok changed => (.ok (), changed)
      | .error fault => (.error fault, document) := by
  unfold setString putString
  rw [Json.putString_eq]
  cases document.root.objectAt keys with
  | ok members => rfl
  | error fault => rfl

theorem setString_of_ok (h : document.putString keys leaf text = .ok changed) :
    document.setString keys leaf text = (.ok (), changed) := by
  rw [setString_eq, h]

theorem setString_of_error (h : document.putString keys leaf text = .error fault) :
    document.setString keys leaf text = (.error fault, document) := by
  rw [setString_eq, h]

/-- The document after some calls, each with its keys, its member and its string. -/
def afterCalls (document : Document) (calls : List (List String × String × String)) : Document :=
  calls.foldl (fun document call => (document.setString call.1 call.2.1 call.2.2).2) document

/-- What every edit keeps, calls keep, whether they succeed or fail. -/
theorem afterCalls_invariant {keeps : Document → Prop}
    (hput : ∀ document keys leaf text changed, keeps document →
      document.putString keys leaf text = .ok changed → keeps changed)
    (h : keeps document) (calls : List (List String × String × String)) :
    keeps (document.afterCalls calls) := by
  induction calls generalizing document with
  | nil => exact h
  | cons call calls ih =>
    obtain ⟨keys, leaf, text⟩ := call
    unfold afterCalls
    rw [List.foldl_cons]
    apply ih
    -- the call leaves an edited document, or the same one
    cases hcall : document.putString keys leaf text with
    | ok changed =>
      rw [setString_of_ok hcall]
      exact hput _ _ _ _ _ h hcall
    | error fault =>
      rw [setString_of_error hcall]
      exact h

end UpdateFeed.Document
