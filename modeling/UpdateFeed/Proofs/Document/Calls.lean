import UpdateFeed.Proofs.Document.InPlace
import UpdateFeed.Proofs.Json.Entries
import UpdateFeed.Proofs.Json.Setting
import UpdateFeed.Proofs.Reloading

/-!
# Documents after calls

What is known of a document that was read from a text and edited in its place since then.  A text
may repeat keys, but the document does not, and no call brings it to do so.

- `setString_succeeds_iff`: when a call succeeds.
- `afterCalls_twice`: of two calls for one member the last one counts.
- `setString_either_order`: calls for two members that are there.
- `afterCalls_of_ofText`: the laws of calls, for every text and all calls before.
-/

namespace UpdateFeed.Document

open Json

variable {document changed : Document} {path content : String} {keys keys' : List String}
  {leaf leaf' text : String} {old old' : Json}

/-! ## §1 Two calls -/

/-- A call succeeds when the edit does, and leaves the edited document. -/
theorem setString_eq_ok_iff : document.setString keys leaf text = (.ok (), changed) ↔
    document.putString keys leaf text = .ok changed := by
  rw [setString_eq]
  cases document.putString keys leaf text with
  | ok edited => simp
  | error fault => simp

/-- A call succeeds exactly when there is an object for it. -/
theorem setString_succeeds_iff : (document.setString keys leaf text).1 = .ok () ↔
    ∃ members, document.root.valueAt keys = some (.object members) := by
  simp only [← objectAt_eq_ok_iff]
  unfold setString
  cases document.root.objectAt keys with
  | ok members => simp
  | error fault => simp

/-- Of two calls for one member the last one counts, whether they succeed or fail. -/
theorem afterCalls_twice (document : Document) (keys : List String) (leaf first last : String) :
    document.afterCalls [(keys, leaf, first), (keys, leaf, last)] =
      document.afterCalls [(keys, leaf, last)] := by
  show ((document.setString keys leaf first).2.setString keys leaf last).2 =
    (document.setString keys leaf last).2
  unfold setString
  cases hobject : document.root.objectAt keys with
  | error fault => simp only [hobject]
  | ok members =>
    -- the second call finds the object with the first string in it
    have hbetween := objectAt_eq_ok_iff.mpr (valueAt_replaceAt_self
      (objectAt_eq_ok_iff.mp hobject) (.object (assign leaf (.string first) members)))
    simp only [hbetween, replaceAt_replaceAt, assign_assign]

/-- Calls for two members that are there succeed in either order, with the same document behind
them, if none of the members is within the other. -/
theorem setString_either_order (h : document.root.valueAt (keys ++ [leaf]) = some old)
    (h' : document.root.valueAt (keys' ++ [leaf']) = some old')
    (hbelow : ¬ keys ++ [leaf] <+: keys' ++ [leaf'])
    (habove : ¬ keys' ++ [leaf'] <+: keys ++ [leaf]) (text text' : String) :
    ∃ one other last, document.setString keys leaf text = (.ok (), one)
      ∧ one.setString keys' leaf' text' = (.ok (), last)
      ∧ document.setString keys' leaf' text' = (.ok (), other)
      ∧ other.setString keys leaf text = (.ok (), last) := by
  -- the calls edit the value of the document and keep the rest of it
  obtain ⟨root, hthere, hback⟩ := putString_comm_of_valueAt h h' hbelow habove text text'
  obtain ⟨one, hone, hlast⟩ := exists_of_bind_eq_ok hthere
  obtain ⟨other, hother, hlast'⟩ := exists_of_bind_eq_ok hback
  refine ⟨{ document with root := one }, { document with root := other },
    { document with root }, ?_⟩
  simp only [setString_eq_ok_iff, putString_eq_ok_iff]
  exact ⟨⟨one, hone, rfl⟩, ⟨root, hlast, rfl⟩, ⟨other, hother, rfl⟩, ⟨root, hlast', rfl⟩⟩

/-! ## §2 Documents that were read -/

/-- The laws of calls on a document. -/
structure CallLaws (document : Document) : Prop where
  /-- No object has a key twice, wherever it is. -/
  distinct : ∀ place members, document.root.at? place = some (.object members) →
    (members.map Prod.fst).Nodup
  /-- A call succeeds exactly when there is an object for it. -/
  possible : ∀ keys leaf text, (document.setString keys leaf text).1 = .ok () ↔
    ∃ members, document.root.valueAt keys = some (.object members)
  /-- A call that succeeds sets its member, and keeps all else. -/
  succeeds : ∀ keys leaf text changed, document.setString keys leaf text = (.ok (), changed) →
    Sets keys leaf text document.root changed.root
      ∧ changed = { document with root := changed.root }
  /-- A call that fails changes nothing. -/
  fails : ∀ keys leaf text fault changed,
    document.setString keys leaf text = (.error fault, changed) → changed = document
  /-- Of two calls for one member the last one counts. -/
  last : ∀ keys leaf first last,
    document.afterCalls [(keys, leaf, first), (keys, leaf, last)] =
      document.afterCalls [(keys, leaf, last)]
  /-- Calls for two members that are there, none of them within the other, succeed in either order
  and leave the same document. -/
  either : ∀ keys leaf keys' leaf' old old',
    document.root.valueAt (keys ++ [leaf]) = some old →
    document.root.valueAt (keys' ++ [leaf']) = some old' →
    ¬ keys ++ [leaf] <+: keys' ++ [leaf'] → ¬ keys' ++ [leaf'] <+: keys ++ [leaf] →
    ∀ text text', ∃ one other last, document.setString keys leaf text = (.ok (), one)
      ∧ one.setString keys' leaf' text' = (.ok (), last)
      ∧ document.setString keys' leaf' text' = (.ok (), other)
      ∧ other.setString keys leaf text = (.ok (), last)

/-- Calls keep the form of a document. -/
theorem formed_afterCalls {depth : Nat} {holds : Number → Prop}
    (h : Formed holds depth document.root) (calls : List (List String × String × String)) :
    Formed holds depth (document.afterCalls calls).root := by
  have hkeeps : ∀ (document : Document) keys leaf text changed,
      Formed holds depth document.root → document.putString keys leaf text = .ok changed →
      Formed holds depth changed.root := by
    intro document keys leaf text changed hform hput
    obtain ⟨root, hroot, rfl⟩ := putString_eq_ok_iff.mp hput
    exact formed_putString hform hroot
  exact afterCalls_invariant hkeeps h calls

/-- The laws of calls hold of a document without repeated keys. -/
theorem callLaws_of_formed {depth : Nat} {holds : Number → Prop}
    (h : Formed holds depth document.root) : CallLaws document where
  distinct place members hat := h.nodup_keys hat
  possible _ _ _ := setString_succeeds_iff
  succeeds keys leaf text changed hcall := by
    obtain ⟨root, hroot, rfl⟩ := putString_eq_ok_iff.mp (setString_eq_ok_iff.mp hcall)
    exact ⟨sets_putString hroot, rfl⟩
  fails keys leaf text fault changed hcall := by
    rw [setString_eq] at hcall
    split at hcall
    · cases hcall
    · exact (Prod.mk.inj hcall).2.symm
  last := afterCalls_twice document
  either keys leaf keys' leaf' old old' hold hold' hbelow habove :=
    setString_either_order hold hold' hbelow habove

/-- In a document that was read from a text, each object has the keys of its entries in the order
in which they come first, each with the value that it has last.  Whatever calls were made since
then, the laws of calls hold. -/
theorem afterCalls_of_ofText (h : ofText path content = .ok document)
    (calls : List (List String × String × String)) :
    (∃ rest, readValue depthLimit content.toList = .ok (document.root, rest))
      ∧ (∀ depth text members rest, readValue depth text = .ok (.object members, rest) →
        OfEntries depth text members rest)
      ∧ CallLaws (document.afterCalls calls) := by
  have hform := formed_of_ofText h
  refine ⟨?_, fun depth text members rest => ofEntries_of_readValue,
    callLaws_of_formed (formed_afterCalls hform calls)⟩
  obtain ⟨root, hread, rfl⟩ := ofText_eq_ok_iff.mp h
  exact exists_readValue_of_read hread

/-- A text with a key that comes twice, and one in an object within an array. -/
def repeatingContent : String :=
  "\x7b\"a\":1,\"b\":[\x7b\"c\":null,\"c\":\x7b\x7d\x7d],\"a\":\x7b\"d\":2\x7d\x7d"

theorem afterCalls_of_ofText_repeating :
    ∃ document, ofText "feed.json" repeatingContent = .ok document
      ∧ CallLaws (document.afterCalls [(["b"], "c", "x"), (["a"], "e", "y"), ([], "a", "z")])
      ∧ (document.afterCalls [(["b"], "c", "x"), (["a"], "e", "y"), ([], "a", "z")]).root =
        .object [("a", .string "z"), ("b", .array [.object [("c", .object [])]])] := by
  obtain ⟨document, hload⟩ : ∃ document, ofText "feed.json" repeatingContent = .ok document :=
    ⟨_, rfl⟩
  obtain ⟨-, -, hlaws⟩ :=
    afterCalls_of_ofText hload [(["b"], "c", "x"), (["a"], "e", "y"), ([], "a", "z")]
  obtain rfl := Except.ok.inj hload
  exact ⟨_, rfl, hlaws, rfl⟩

end UpdateFeed.Document
