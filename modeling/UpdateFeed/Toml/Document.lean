import UpdateFeed.Toml.Reader

/-!
# Tables of a configuration text

The sections of a text are put together into one table.  A table remembers how it came about, since
that decides what may still be added to it:

- an *explicit* table has a header or braces, or is an element of an array of tables;
- an *implied* table is one that a header passes through;
- a *dotted* table is one that a dotted key passes through.

A dotted key passes only through implied and dotted tables and ends in the table it started from
or in a dotted one.  A header may make an implied table explicit; the table then moves to the end
of the one that holds it.  No key is given twice.
-/

namespace UpdateFeed.Toml

/-! ## §1 Tables under construction -/

/-- How a table came about. -/
inductive Origin where
  | explicit
  | implied
  | dotted
  deriving DecidableEq, Repr

/-- What a key stands for while tables are put together. -/
inductive Item where
  | value (value : Value)
  | table (origin : Origin) (entries : List (String × Item))
  /-- An array of tables by its elements. -/
  | tables (elements : List (List (String × Item)))
  deriving Inhabited

/-- The entries of a table under construction. -/
abbrev Items := List (String × Item)

/-- The item of a key. -/
def find? (key : String) : Items → Option Item
  | [] => none
  | (k, item) :: items => if k = key then some item else find? key items

/-- Puts an item at the place of its key, or at the end. -/
def replace (key : String) (item : Item) : Items → Items
  | [] => [(key, item)]
  | (k, old) :: items =>
    if k = key then (key, item) :: items else (k, old) :: replace key item items

/-- Removes a key. -/
def erase (key : String) (items : Items) : Items := items.filter (·.1 ≠ key)

/-- Changes the table that a list of keys leads to; the change is told whether that table is a
dotted one.  A table that is missing on the way is made; an array of tables is entered at its last
element.  A dotted key does not pass through explicit tables. -/
def changeAt (dotted : Bool) (change : Bool → Items → Option Items) :
    List String → Bool → Items → Option Items
  | [], isDotted, items => change isDotted items
  | key :: keys, _, items =>
    match find? key items with
    | none => do
      let origin := if dotted then Origin.dotted else Origin.implied
      return items ++ [(key, .table origin (← changeAt dotted change keys dotted []))]
    | some (.value _) => none
    | some (.table origin entries) => do
      if dotted ∧ origin = .explicit then none
      return replace key
        (.table origin (← changeAt dotted change keys (origin = .dotted) entries)) items
    | some (.tables elements) => do
      let last ← changeAt dotted change keys false (elements.getLast?.getD [])
      return replace key (.tables (elements.dropLast ++ [last])) items

/-! ## §2 Finished values -/

mutual

/-- The value of an item. -/
def Item.toValue : Item → Value
  | .value value => value
  | .table _ entries => .table (itemsValues entries)
  | .tables elements => .array (elementsValues elements)

/-- The values of entries. -/
def itemsValues : List (String × Item) → List (String × Value)
  | [] => []
  | (key, item) :: items => (key, item.toValue) :: itemsValues items

/-- The values of the elements of an array of tables. -/
def elementsValues : List (List (String × Item)) → List Value
  | [] => []
  | element :: elements => .table (itemsValues element) :: elementsValues elements

end

/-! ## §3 Entries -/

/-- Adds an entry with a dotted key to a table. -/
def addEntry (key : List String) (value : Value) (items : Items) : Option Items :=
  match key.getLast? with
  | none => none
  | some name =>
    let way := key.dropLast
    changeAt true
      (fun isDotted items =>
        if isDotted = way.isEmpty then none
        else if (find? name items).isSome then none
        else some (items ++ [(name, .value value)]))
      way false items

mutual

/-- The value of a value as written; nothing if a key is given twice. -/
def Written.toValue? : Written → Option Value
  | .scalar value => some value
  | .array items => (writtenItems? items).map .array
  | .braces entries => (addWritten? [] entries).map fun items => .table (itemsValues items)

/-- The values of the items of an array. -/
def writtenItems? : List Written → Option (List Value)
  | [] => some []
  | item :: items => do
    let value ← item.toValue?
    return value :: (← writtenItems? items)

/-- Adds entries as written to a table. -/
def addWritten? (table : Items) : List (List String × Written) → Option Items
  | [] => some table
  | (key, written) :: entries => do
    let value ← written.toValue?
    addWritten? (← addEntry key value table) entries

end

/-! ## §4 Sections -/

/-- Adds a section to the table of the whole text. -/
def addSection (table : Items) (part : Section) : Option Items :=
  match part.header with
  | .top => addWritten? table part.entries
  | .table key => do
    let name ← key.getLast?
    changeAt false
      (fun _ items => do
        let start ←
          match find? name items with
          | none => some []
          | some (.table .implied entries) => some entries
          | some _ => none
        let entries ← addWritten? start part.entries
        return erase name items ++ [(name, .table .explicit entries)])
      key.dropLast false table
  | .element key => do
    let name ← key.getLast?
    changeAt false
      (fun _ items =>
        match find? name items with
        | none => do
          let element ← addWritten? [] part.entries
          return items ++ [(name, .tables [element])]
        | some (.tables elements) => do
          let element ← addWritten? [] part.entries
          return replace name (.tables (elements ++ [element])) items
        | some _ => none)
      key.dropLast false table

/-- The table of a configuration text, by its entries; nothing if the text has a fault. -/
def parse? (content : String) : Option (List (String × Value)) := do
  let sections ← sections? content.toList
  let table ← sections.foldlM addSection []
  return itemsValues table

end UpdateFeed.Toml
