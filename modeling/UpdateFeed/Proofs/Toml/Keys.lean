import Mathlib.Data.List.Nodup
import UpdateFeed.Proofs.Toml.Scalars
import UpdateFeed.Toml.Document

/-!
# Keys of a configuration text

Sections are put together entry by entry, and whatever is added to a table has a key that the table
does not have, or takes the place of what stands under its key.  So in the table of a text, and in
every table in it, no key stands twice.

- `Value.HasUniqueKeys`: a value of which no table has a key twice, at any depth.
- `uniqueKeys_changeAt`: a change at some keys keeps keys unique if it does so where it is made.
- `hasUniqueKeys_of_parse?`: the table of a text.
-/

namespace UpdateFeed.Toml

/-! ## §1 Values and items -/

/-- A value of which no table has a key twice, at any depth. -/
inductive Value.HasUniqueKeys : Value → Prop
  | scalar {value : Value} (scalar : value.IsScalar) : HasUniqueKeys value
  | array {items : List Value} (each : ∀ item ∈ items, HasUniqueKeys item) :
      HasUniqueKeys (.array items)
  | table {entries : List (String × Value)} (nodup : (entries.map Prod.fst).Nodup)
      (each : ∀ entry ∈ entries, HasUniqueKeys entry.2) : HasUniqueKeys (.table entries)

mutual

/-- An item of which no table has a key twice, at any depth. -/
inductive Item.HasUniqueKeys : Item → Prop
  | value {value : Value} (unique : value.HasUniqueKeys) : Item.HasUniqueKeys (.value value)
  | table {origin : Origin} {entries : Items} (unique : Items.HaveUniqueKeys entries) :
      Item.HasUniqueKeys (.table origin entries)
  | tables {elements : List Items} (each : ∀ element ∈ elements, Items.HaveUniqueKeys element) :
      Item.HasUniqueKeys (.tables elements)

/-- The entries of a table that has no key twice, nor has a table below it. -/
inductive Items.HaveUniqueKeys : Items → Prop
  | intro {items : Items} (nodup : (items.map Prod.fst).Nodup)
      (each : ∀ entry ∈ items, Item.HasUniqueKeys entry.2) : Items.HaveUniqueKeys items

end

namespace Items

theorem HaveUniqueKeys.nodup {items : Items} (h : HaveUniqueKeys items) :
    (items.map Prod.fst).Nodup := by
  obtain ⟨nodup, -⟩ := h
  exact nodup

theorem HaveUniqueKeys.each {items : Items} (h : HaveUniqueKeys items) :
    ∀ entry ∈ items, entry.2.HasUniqueKeys := by
  obtain ⟨-, each⟩ := h
  exact each

theorem haveUniqueKeys_nil : HaveUniqueKeys [] :=
  .intro List.nodup_nil (by simp)

end Items

/-! ## §2 Changes of a table -/

section

variable {key : String} {item : Item} {items : Items}

theorem mem_of_find? (h : find? key items = some item) : (key, item) ∈ items := by
  fun_induction find? key items with
  | case1 => cases h
  | case2 found items =>
    obtain rfl := Option.some.inj h
    exact List.mem_cons_self
  | case3 k found items hne ih => exact List.mem_cons_of_mem _ (ih h)

theorem notMem_keys_of_find? (h : find? key items = none) : key ∉ items.map Prod.fst := by
  fun_induction find? key items with
  | case1 => simp
  | case2 => cases h
  | case3 k found items hne ih => simpa [Ne.symm hne] using ih h

/-- Replacing keeps the order of the keys; a new key is the last one. -/
theorem keys_replace (key : String) (item : Item) (items : Items) :
    (replace key item items).map Prod.fst =
      if key ∈ items.map Prod.fst then items.map Prod.fst
      else items.map Prod.fst ++ [key] := by
  fun_induction replace key item items with
  | case1 => simp
  | case2 old items => simp
  | case3 k old items hne ih =>
    have hne' : key ≠ k := fun h => hne h.symm
    simp only [List.map_cons, ih, List.mem_cons, hne', false_or]
    split <;> simp

theorem mem_replace {entry : String × Item} (h : entry ∈ replace key item items) :
    entry = (key, item) ∨ entry ∈ items := by
  fun_induction replace key item items with
  | case1 => exact .inl (by simpa using h)
  | case2 old items =>
    rcases List.mem_cons.mp h with rfl | h
    · exact .inl rfl
    · exact .inr (List.mem_cons_of_mem _ h)
  | case3 k old items hne ih =>
    rcases List.mem_cons.mp h with rfl | h
    · exact .inr List.mem_cons_self
    · exact (ih h).imp_right (List.mem_cons_of_mem _)

namespace Items.HaveUniqueKeys

/-- A table with another entry behind those that it has. -/
theorem concat (h : HaveUniqueKeys items) (hnew : key ∉ items.map Prod.fst)
    (hitem : item.HasUniqueKeys) : HaveUniqueKeys (items ++ [(key, item)]) := by
  apply HaveUniqueKeys.intro
  · rw [List.map_append, List.map_singleton, ← List.concat_eq_append]
    exact h.nodup.concat hnew
  · intro entry hentry
    rcases List.mem_append.mp hentry with hentry | hentry
    · exact h.each entry hentry
    · obtain rfl := List.mem_singleton.mp hentry
      exact hitem

/-- A table with something else under a key. -/
theorem replace (h : HaveUniqueKeys items) (hitem : item.HasUniqueKeys) :
    HaveUniqueKeys (replace key item items) := by
  apply HaveUniqueKeys.intro
  · rw [keys_replace]
    split
    · exact h.nodup
    · rename_i hnew
      rw [← List.concat_eq_append]
      exact h.nodup.concat hnew
  · intro entry hentry
    rcases mem_replace hentry with rfl | hentry
    · exact hitem
    · exact h.each entry hentry

/-- A table without one of its keys. -/
theorem erase (h : HaveUniqueKeys items) : HaveUniqueKeys (erase key items) :=
  .intro (h.nodup.sublist (List.filter_sublist.map _))
    fun entry hentry => h.each entry (List.mem_filter.mp hentry).1

end Items.HaveUniqueKeys

theorem notMem_keys_erase : key ∉ (erase key items).map Prod.fst := by
  simp [erase]

end

/-- A change at some keys keeps keys unique if it does so where it is made. -/
theorem uniqueKeys_changeAt {dotted : Bool} {change : Bool → Items → Option Items}
    (hchange : ∀ isDotted items changed, Items.HaveUniqueKeys items →
      change isDotted items = some changed → Items.HaveUniqueKeys changed)
    {keys : List String} {isDotted : Bool} {items changed : Items}
    (hitems : Items.HaveUniqueKeys items)
    (h : changeAt dotted change keys isDotted items = some changed) :
    Items.HaveUniqueKeys changed := by
  induction keys generalizing isDotted items changed with
  | nil => exact hchange isDotted items changed hitems h
  | cons key keys ih =>
    unfold changeAt at h
    split at h
    · -- a table that is missing on the way is made
      rename_i hmissing
      obtain ⟨below, hbelow, h⟩ := Option.bind_eq_some_iff.mp h
      obtain rfl := Option.some.inj h
      apply hitems.concat (notMem_keys_of_find? hmissing)
      exact .table (ih Items.haveUniqueKeys_nil hbelow)
    · cases h
    · -- a table that is there is entered
      rename_i origin entries hfound
      cases hitems.each _ (mem_of_find? hfound) with
      | table hentries =>
        split at h
        · cases h
        · obtain ⟨below, hbelow, h⟩ := Option.bind_eq_some_iff.mp h
          obtain rfl := Option.some.inj h
          exact hitems.replace (.table (ih hentries hbelow))
    · -- an array of tables is entered at its last element
      rename_i elements hfound
      cases hitems.each _ (mem_of_find? hfound) with
      | tables heach =>
        obtain ⟨last, hlast, h⟩ := Option.bind_eq_some_iff.mp h
        obtain rfl := Option.some.inj h
        have hstart : Items.HaveUniqueKeys (elements.getLast?.getD []) := by
          cases hget : elements.getLast? with
          | none => exact Items.haveUniqueKeys_nil
          | some element => exact heach element (List.mem_of_getLast? hget)
        apply hitems.replace
        apply Item.HasUniqueKeys.tables
        intro element helement
        rcases List.mem_append.mp helement with helement | helement
        · exact heach element (List.dropLast_subset elements helement)
        · obtain rfl := List.mem_singleton.mp helement
          exact ih hstart hlast

/-- An entry with a dotted key is added under a key that is not there. -/
theorem uniqueKeys_addEntry {key : List String} {value : Value} {items changed : Items}
    (hvalue : value.HasUniqueKeys) (hitems : Items.HaveUniqueKeys items)
    (h : addEntry key value items = some changed) : Items.HaveUniqueKeys changed := by
  unfold addEntry at h
  split at h
  · cases h
  · rename_i name hname
    apply uniqueKeys_changeAt _ hitems h
    intro isDotted table changed htable h
    split at h
    · cases h
    · split at h
      · cases h
      · -- the entry is added only if its table does not have the name
        rename_i hnew
        obtain rfl := Option.some.inj h
        rw [Bool.not_eq_true, Option.isSome_eq_false_iff, Option.isNone_iff_eq_none] at hnew
        exact htable.concat (notMem_keys_of_find? hnew) (.value hvalue)

/-! ## §3 Finished values -/

theorem keys_itemsValues (items : Items) :
    (itemsValues items).map Prod.fst = items.map Prod.fst := by
  induction items with
  | nil => rfl
  | cons entry items ih =>
    obtain ⟨key, item⟩ := entry
    simp [itemsValues, ih]

mutual

/-- The value of an item has its keys. -/
theorem Item.hasUniqueKeys_toValue (item : Item) (h : item.HasUniqueKeys) :
    item.toValue.HasUniqueKeys := by
  match item, h with
  | .value value, .value unique =>
    rw [Item.toValue]
    exact unique
  | .table origin entries, .table unique =>
    rw [Item.toValue]
    apply Value.HasUniqueKeys.table
    · rw [keys_itemsValues]
      exact unique.nodup
    · exact itemsValues_haveUniqueKeys entries unique.each
  | .tables elements, .tables each =>
    rw [Item.toValue]
    exact .array (elementsValues_haveUniqueKeys elements each)

theorem itemsValues_haveUniqueKeys (items : Items)
    (h : ∀ entry ∈ items, entry.2.HasUniqueKeys) :
    ∀ entry ∈ itemsValues items, entry.2.HasUniqueKeys := by
  match items with
  | [] => simp [itemsValues]
  | (key, item) :: items =>
    rw [itemsValues, List.forall_mem_cons]
    obtain ⟨hitem, hitems⟩ := List.forall_mem_cons.mp h
    exact ⟨item.hasUniqueKeys_toValue hitem, itemsValues_haveUniqueKeys items hitems⟩

theorem elementsValues_haveUniqueKeys (elements : List Items)
    (h : ∀ element ∈ elements, Items.HaveUniqueKeys element) :
    ∀ value ∈ elementsValues elements, value.HasUniqueKeys := by
  match elements with
  | [] => simp [elementsValues]
  | element :: elements =>
    rw [elementsValues, List.forall_mem_cons]
    obtain ⟨helement, helements⟩ := List.forall_mem_cons.mp h
    constructor
    · apply Value.HasUniqueKeys.table
      · rw [keys_itemsValues]
        exact helement.nodup
      · exact itemsValues_haveUniqueKeys element helement.each
    · exact elementsValues_haveUniqueKeys elements helements

end

mutual

theorem Written.hasUniqueKeys_of_toValue? (written : Written) (h : written.Proper)
    {value : Value} (hvalue : written.toValue? = some value) : value.HasUniqueKeys := by
  match written, h with
  | .scalar found, .scalar scalar =>
    rw [Written.toValue?] at hvalue
    obtain rfl := Option.some.inj hvalue
    exact .scalar scalar
  | .array items, .array each =>
    rw [Written.toValue?] at hvalue
    obtain ⟨values, hvalues, rfl⟩ := Option.map_eq_some_iff.mp hvalue
    exact .array (hasUniqueKeys_of_writtenItems? items each hvalues)
  | .braces entries, .braces each =>
    rw [Written.toValue?] at hvalue
    obtain ⟨items, hitems, rfl⟩ := Option.map_eq_some_iff.mp hvalue
    have hunique := uniqueKeys_addWritten? entries each Items.haveUniqueKeys_nil hitems
    apply Value.HasUniqueKeys.table
    · rw [keys_itemsValues]
      exact hunique.nodup
    · exact itemsValues_haveUniqueKeys items hunique.each

theorem hasUniqueKeys_of_writtenItems? (items : List Written) (h : ∀ item ∈ items, item.Proper)
    {values : List Value} (hvalues : writtenItems? items = some values) :
    ∀ value ∈ values, value.HasUniqueKeys := by
  match items with
  | [] =>
    rw [writtenItems?] at hvalues
    obtain rfl := Option.some.inj hvalues
    simp
  | item :: items =>
    rw [writtenItems?] at hvalues
    obtain ⟨hitem, hitems⟩ := List.forall_mem_cons.mp h
    obtain ⟨value, hvalue, hvalues⟩ := Option.bind_eq_some_iff.mp hvalues
    obtain ⟨others, hothers, hvalues⟩ := Option.bind_eq_some_iff.mp hvalues
    obtain rfl := Option.some.inj hvalues
    exact List.forall_mem_cons.mpr ⟨item.hasUniqueKeys_of_toValue? hitem hvalue,
      hasUniqueKeys_of_writtenItems? items hitems hothers⟩

/-- Entries as written are added to a table under keys of their own. -/
theorem uniqueKeys_addWritten? (entries : WrittenEntries) (h : ∀ entry ∈ entries, entry.2.Proper)
    {table changed : Items} (htable : Items.HaveUniqueKeys table)
    (hchanged : addWritten? table entries = some changed) : Items.HaveUniqueKeys changed := by
  match entries with
  | [] =>
    rw [addWritten?] at hchanged
    obtain rfl := Option.some.inj hchanged
    exact htable
  | (key, written) :: entries =>
    rw [addWritten?] at hchanged
    obtain ⟨hwritten, hentries⟩ := List.forall_mem_cons.mp h
    obtain ⟨value, hvalue, hchanged⟩ := Option.bind_eq_some_iff.mp hchanged
    obtain ⟨between, hbetween, hchanged⟩ := Option.bind_eq_some_iff.mp hchanged
    have hunique := uniqueKeys_addEntry (written.hasUniqueKeys_of_toValue? hwritten hvalue)
      htable hbetween
    exact uniqueKeys_addWritten? entries hentries hunique hchanged

end

/-! ## §4 Sections -/

/-- A section is added to the table of the whole text under keys of its own. -/
theorem uniqueKeys_addSection {part : Section} (h : ∀ entry ∈ part.entries, entry.2.Proper)
    {table changed : Items} (htable : Items.HaveUniqueKeys table)
    (hchanged : addSection table part = some changed) : Items.HaveUniqueKeys changed := by
  unfold addSection at hchanged
  split at hchanged
  · exact uniqueKeys_addWritten? _ h htable hchanged
  · -- the table of a header: a new one, or one that was only implied
    obtain ⟨name, -, hchanged⟩ := Option.bind_eq_some_iff.mp hchanged
    apply uniqueKeys_changeAt _ htable hchanged
    intro _ items changed hitems hchanged
    have hmake : ∀ start, Items.HaveUniqueKeys start →
        ((addWritten? start part.entries).bind fun entries =>
          some (erase name items ++ [(name, .table .explicit entries)])) = some changed →
        Items.HaveUniqueKeys changed := by
      intro start hstart hmade
      obtain ⟨entries, hentries, hmade⟩ := Option.bind_eq_some_iff.mp hmade
      obtain rfl := Option.some.inj hmade
      apply hitems.erase.concat notMem_keys_erase
      exact .table (uniqueKeys_addWritten? _ h hstart hentries)
    dsimp only at hchanged
    split at hchanged
    · exact hmake [] Items.haveUniqueKeys_nil hchanged
    · rename_i found hfound
      cases hitems.each _ (mem_of_find? hfound) with
      | table unique => exact hmake found unique hchanged
    · cases hchanged
  · -- an element of an array of tables: of a new one, or behind those that are there
    obtain ⟨name, -, hchanged⟩ := Option.bind_eq_some_iff.mp hchanged
    apply uniqueKeys_changeAt _ htable hchanged
    intro _ items changed hitems hchanged
    split at hchanged
    · rename_i hmissing
      obtain ⟨element, helement, hchanged⟩ := Option.bind_eq_some_iff.mp hchanged
      obtain rfl := Option.some.inj hchanged
      apply hitems.concat (notMem_keys_of_find? hmissing)
      exact .tables (List.forall_mem_singleton.mpr
        (uniqueKeys_addWritten? _ h Items.haveUniqueKeys_nil helement))
    · rename_i elements hfound
      obtain ⟨element, helement, hchanged⟩ := Option.bind_eq_some_iff.mp hchanged
      obtain rfl := Option.some.inj hchanged
      have hunique := uniqueKeys_addWritten? _ h Items.haveUniqueKeys_nil helement
      cases hitems.each _ (mem_of_find? hfound) with
      | tables each =>
        apply hitems.replace
        apply Item.HasUniqueKeys.tables
        intro other hother
        rcases List.mem_append.mp hother with hother | hother
        · exact each other hother
        · obtain rfl := List.mem_singleton.mp hother
          exact hunique
    · cases hchanged

theorem uniqueKeys_addSections {sections : List Section}
    (h : ∀ part ∈ sections, ∀ entry ∈ part.entries, entry.2.Proper) {table changed : Items}
    (htable : Items.HaveUniqueKeys table)
    (hchanged : sections.foldlM addSection table = some changed) :
    Items.HaveUniqueKeys changed := by
  induction sections generalizing table with
  | nil =>
    obtain rfl := Option.some.inj hchanged
    exact htable
  | cons part sections ih =>
    rw [List.foldlM_cons] at hchanged
    obtain ⟨between, hbetween, hchanged⟩ := Option.bind_eq_some_iff.mp hchanged
    obtain ⟨hpart, hsections⟩ := List.forall_mem_cons.mp h
    exact ih hsections (uniqueKeys_addSection hpart htable hbetween) hchanged

/-- In the table of a text, and in every table in it, no key stands twice. -/
theorem hasUniqueKeys_of_parse? {content : String} {entries : List (String × Value)}
    (h : parse? content = some entries) : (Value.table entries).HasUniqueKeys := by
  obtain ⟨sections, hsections, h⟩ := Option.bind_eq_some_iff.mp h
  obtain ⟨table, htable, h⟩ := Option.bind_eq_some_iff.mp h
  obtain rfl := Option.some.inj h
  have hunique := uniqueKeys_addSections (proper_of_sections? hsections)
    Items.haveUniqueKeys_nil htable
  -- the finished table has the keys of the one that was put together
  apply Value.HasUniqueKeys.table
  · rw [keys_itemsValues]
    exact hunique.nodup
  · exact itemsValues_haveUniqueKeys table hunique.each

end UpdateFeed.Toml
