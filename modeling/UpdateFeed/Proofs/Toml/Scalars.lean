import UpdateFeed.Toml.Reader

/-!
# Scalars as written

A configuration text spells out arrays and tables bracket by bracket, and everything else in one
piece.  So what stands as a scalar in a value as written is neither an array nor a table.

- `Written.Proper`: a value as written in which all scalars are scalars.
- `proper_of_readValue`, `proper_of_sections?`: what is read is such a value.
-/

namespace UpdateFeed.Toml

/-! ## §1 Scalars -/

/-- A value that is neither an array nor a table. -/
def Value.IsScalar : Value → Prop
  | .array _ => False
  | .table _ => False
  | _ => True

/-- A value as written in which all scalars are scalars. -/
inductive Written.Proper : Written → Prop
  | scalar {value : Value} (scalar : value.IsScalar) : Proper (.scalar value)
  | array {items : List Written} (each : ∀ item ∈ items, Proper item) : Proper (.array items)
  | braces {entries : WrittenEntries} (each : ∀ entry ∈ entries, Proper entry.2) :
      Proper (.braces entries)

theorem isScalar_of_integer? {negative : Bool} {magnitude : Nat} {value : Value}
    (h : integer? negative magnitude = some value) : value.IsScalar := by
  unfold integer? at h
  split at h
  · split at h
    · obtain rfl := Option.some.inj h
      trivial
    · cases h
  · split at h
    · obtain rfl := Option.some.inj h
      trivial
    · cases h

theorem isScalar_of_real? {negative : Bool} {decimal : Decimal} {value : Value}
    (h : real? negative decimal = some value) : value.IsScalar := by
  unfold real? at h
  split at h
  · obtain rfl := Option.some.inj h
    trivial
  · split at h
    · obtain rfl := Option.some.inj h
      trivial
    · cases h

variable {value : Value} {text rest : List Char}

theorem isScalar_of_readInBase {base : Nat} {value? : Char → Option Nat}
    (h : readInBase base value? text = some (value, rest)) : value.IsScalar := by
  obtain ⟨⟨digits, behind⟩, -, h⟩ := Option.bind_eq_some_iff.mp h
  obtain ⟨found, hfound, h⟩ := Option.bind_eq_some_iff.mp h
  obtain ⟨rfl, -⟩ := Prod.mk.inj (Option.some.inj h)
  exact isScalar_of_integer? hfound

theorem isScalar_of_readInteger (h : readInteger text = some (value, rest)) :
    value.IsScalar := by
  unfold readInteger at h
  split at h
  · exact isScalar_of_readInBase h
  · exact isScalar_of_readInBase h
  · exact isScalar_of_readInBase h
  · obtain ⟨⟨digits, behind⟩, -, h⟩ := Option.bind_eq_some_iff.mp h
    obtain ⟨found, hfound, h⟩ := Option.bind_eq_some_iff.mp h
    obtain ⟨rfl, -⟩ := Prod.mk.inj (Option.some.inj h)
    exact isScalar_of_integer? hfound

theorem isScalar_of_readFloat? (h : readFloat? text = some (some (value, rest))) :
    value.IsScalar := by
  have hreal : ∀ {negative : Bool} {decimal : Decimal} {behind : List Char},
      ((real? negative decimal).bind fun found => some (found, behind)) = some (value, rest) →
        value.IsScalar := by
    intro negative decimal behind h
    obtain ⟨found, hfound, h⟩ := Option.bind_eq_some_iff.mp h
    obtain ⟨rfl, -⟩ := Prod.mk.inj (Option.some.inj h)
    exact isScalar_of_real? hfound
  obtain ⟨⟨whole, behind⟩, -, h⟩ := Option.bind_eq_some_iff.mp h
  dsimp only at h
  split at h
  · -- a fraction, and an exponent behind it or not
    obtain ⟨⟨fraction, behind⟩, -, h⟩ := Option.bind_eq_some_iff.mp (Option.some.inj h)
    dsimp only at h
    split at h
    · split at h
      · obtain ⟨⟨⟨down, exponent⟩, behind⟩, -, h⟩ := Option.bind_eq_some_iff.mp h
        exact hreal h
      · exact hreal h
    · exact hreal h
  · split at h
    · obtain ⟨⟨⟨down, exponent⟩, behind⟩, -, h⟩ := Option.bind_eq_some_iff.mp (Option.some.inj h)
      exact hreal h
    · cases h
  · cases h

theorem isScalar_of_readSpecial (h : readSpecial text = some (value, rest)) :
    value.IsScalar := by
  unfold readSpecial at h
  dsimp only at h
  split at h
  · obtain ⟨rfl, -⟩ := Prod.mk.inj (Option.some.inj h)
    trivial
  · obtain ⟨rfl, -⟩ := Prod.mk.inj (Option.some.inj h)
    trivial
  · cases h

theorem isScalar_of_readMoment (h : readMoment text = some (value, rest)) :
    value.IsScalar := by
  unfold readMoment at h
  split at h
  · obtain ⟨⟨date, behind⟩, -, h⟩ := Option.bind_eq_some_iff.mp h
    obtain ⟨⟨time, last⟩, -, h⟩ := Option.bind_eq_some_iff.mp h
    obtain ⟨rfl, -⟩ := Prod.mk.inj (Option.some.inj h)
    trivial
  · obtain ⟨⟨time, behind⟩, -, h⟩ := Option.map_eq_some_iff.mp h
    obtain ⟨rfl, -⟩ := Prod.mk.inj h
    trivial

theorem isScalar_of_readNumber (h : readNumber text = some (value, rest)) :
    value.IsScalar := by
  unfold readNumber at h
  split at h
  · exact isScalar_of_readMoment h
  · split at h
    · rename_i result hfloat
      subst h
      exact isScalar_of_readFloat? hfloat
    · cases hspecial : readSpecial text with
      | some found =>
        rw [hspecial] at h
        obtain rfl := Option.some.inj h
        exact isScalar_of_readSpecial hspecial
      | none =>
        rw [hspecial] at h
        exact isScalar_of_readInteger h

/-! ## §2 Values -/

section

variable {readItem : Reader Written}
  (hitem : ∀ text item rest, readItem text = some (item, rest) → item.Proper)

include hitem

theorem proper_of_readItems {bound : Nat} {items : List Written}
    (h : readItems readItem bound text = some (items, rest)) : ∀ item ∈ items, item.Proper := by
  induction bound generalizing text items rest with
  | zero => cases h
  | succ bound ih =>
    obtain ⟨start, -, h⟩ := Option.bind_eq_some_iff.mp h
    split at h
    · obtain ⟨rfl, -⟩ := Prod.mk.inj (Option.some.inj h)
      simp
    · obtain ⟨⟨item, behind⟩, hread, h⟩ := Option.bind_eq_some_iff.mp h
      have hproper := hitem _ _ _ hread
      obtain ⟨next, -, h⟩ := Option.bind_eq_some_iff.mp h
      split at h
      · obtain ⟨⟨others, last⟩, hothers, h⟩ := Option.bind_eq_some_iff.mp h
        obtain ⟨rfl, -⟩ := Prod.mk.inj (Option.some.inj h)
        exact List.forall_mem_cons.mpr ⟨hproper, ih hothers⟩
      · obtain ⟨rfl, -⟩ := Prod.mk.inj (Option.some.inj h)
        exact List.forall_mem_singleton.mpr hproper
      · cases h

theorem proper_of_readEntry {entry : List String × Written}
    (h : readEntry readItem text = some (entry, rest)) : entry.2.Proper := by
  obtain ⟨⟨key, behind⟩, -, h⟩ := Option.bind_eq_some_iff.mp h
  dsimp only at h
  split at h
  · obtain ⟨⟨item, last⟩, hread, h⟩ := Option.bind_eq_some_iff.mp h
    obtain ⟨rfl, -⟩ := Prod.mk.inj (Option.some.inj h)
    exact hitem _ _ _ hread
  · cases h

theorem proper_of_readBraceEntries {bound : Nat} {entries : WrittenEntries}
    (h : readBraceEntries readItem bound text = some (entries, rest)) :
    ∀ entry ∈ entries, entry.2.Proper := by
  induction bound generalizing text entries rest with
  | zero => cases h
  | succ bound ih =>
    obtain ⟨⟨entry, behind⟩, hread, h⟩ := Option.bind_eq_some_iff.mp h
    have hproper := proper_of_readEntry hitem hread
    dsimp only at h
    split at h
    · obtain ⟨⟨others, last⟩, hothers, h⟩ := Option.bind_eq_some_iff.mp h
      obtain ⟨rfl, -⟩ := Prod.mk.inj (Option.some.inj h)
      exact List.forall_mem_cons.mpr ⟨hproper, ih hothers⟩
    · obtain ⟨rfl, -⟩ := Prod.mk.inj (Option.some.inj h)
      exact List.forall_mem_singleton.mpr hproper
    · cases h

end

/-- What is read as a value is proper if what is read one level deeper is. -/
theorem proper_of_readValue_step {depth : Nat} {written : Written}
    (hbelow : ∀ below, depth = below + 1 → ∀ text item rest,
      readValue below text = some (item, rest) → item.Proper)
    (h : readValue depth text = some (written, rest)) : written.Proper := by
  unfold readValue at h
  split at h
  · cases h
  · -- an array
    cases depth with
    | zero => cases h
    | succ below =>
      obtain ⟨⟨items, behind⟩, hitems, h⟩ := Option.map_eq_some_iff.mp h
      obtain ⟨rfl, -⟩ := Prod.mk.inj h
      exact .array (proper_of_readItems (hbelow below rfl) hitems)
  · -- a table in braces
    cases depth with
    | zero => cases h
    | succ below =>
      dsimp only at h
      split at h
      · obtain ⟨rfl, -⟩ := Prod.mk.inj (Option.some.inj h)
        exact .braces (by simp)
      · obtain ⟨⟨entries, behind⟩, hentries, h⟩ := Option.map_eq_some_iff.mp h
        obtain ⟨rfl, -⟩ := Prod.mk.inj h
        exact .braces (proper_of_readBraceEntries (hbelow below rfl) hentries)
  · obtain ⟨_, -, h⟩ := Option.map_eq_some_iff.mp h
    obtain ⟨rfl, -⟩ := Prod.mk.inj h
    exact .scalar trivial
  · obtain ⟨_, -, h⟩ := Option.map_eq_some_iff.mp h
    obtain ⟨rfl, -⟩ := Prod.mk.inj h
    exact .scalar trivial
  · -- a string, a special number, or a number or moment
    split at h
    · obtain ⟨_, -, h⟩ := Option.map_eq_some_iff.mp h
      obtain ⟨rfl, -⟩ := Prod.mk.inj h
      exact .scalar trivial
    · split at h
      · obtain ⟨_, hspecial, h⟩ := Option.map_eq_some_iff.mp h
        obtain ⟨rfl, -⟩ := Prod.mk.inj h
        exact .scalar (isScalar_of_readSpecial hspecial)
      · split at h
        · obtain ⟨_, hnumber, h⟩ := Option.map_eq_some_iff.mp h
          obtain ⟨rfl, -⟩ := Prod.mk.inj h
          exact .scalar (isScalar_of_readNumber hnumber)
        · cases h

/-- What is read as a value is proper. -/
theorem proper_of_readValue {depth : Nat} {written : Written}
    (h : readValue depth text = some (written, rest)) : written.Proper := by
  induction depth generalizing text written rest with
  | zero =>
    apply proper_of_readValue_step _ h
    intro below hdepth
    omega
  | succ depth ih =>
    apply proper_of_readValue_step _ h
    intro below hdepth text item rest hread
    obtain rfl : depth = below := by omega
    exact ih hread

/-! ## §3 Sections -/

theorem proper_of_readSections {header : Header} {bound : Nat} {sections : List Section}
    (h : readSections header bound text = some sections) :
    ∀ part ∈ sections, ∀ entry ∈ part.entries, entry.2.Proper := by
  induction bound generalizing header text sections with
  | zero => cases h
  | succ bound ih =>
    unfold readSections at h
    split at h
    · obtain rfl := Option.some.inj h
      simp
    · split at h
      · obtain ⟨⟨_, behind⟩, -, h⟩ := Option.bind_eq_some_iff.mp h
        exact ih h
      · split at h
        · obtain ⟨⟨next, behind⟩, -, h⟩ := Option.bind_eq_some_iff.mp h
          obtain ⟨⟨_, last⟩, -, h⟩ := Option.bind_eq_some_iff.mp h
          obtain ⟨others, hothers, h⟩ := Option.bind_eq_some_iff.mp h
          obtain rfl := Option.some.inj h
          exact List.forall_mem_cons.mpr ⟨by simp, ih hothers⟩
        · obtain ⟨⟨entry, behind⟩, hread, h⟩ := Option.bind_eq_some_iff.mp h
          obtain ⟨⟨_, last⟩, -, h⟩ := Option.bind_eq_some_iff.mp h
          obtain ⟨others, hothers, h⟩ := Option.bind_eq_some_iff.mp h
          obtain rfl := Option.some.inj h
          have hproper := proper_of_readEntry (fun _ _ _ => proper_of_readValue) hread
          -- the entry joins the first section, if there is one
          cases others with
          | nil => simp [consEntry]
          | cons first others =>
            obtain ⟨hfirst, hrest⟩ := List.forall_mem_cons.mp (ih hothers)
            exact List.forall_mem_cons.mpr ⟨List.forall_mem_cons.mpr ⟨hproper, hfirst⟩, hrest⟩

/-- The entries of the sections of a text are proper. -/
theorem proper_of_sections? {sections : List Section} (h : sections? text = some sections) :
    ∀ part ∈ sections, ∀ entry ∈ part.entries, entry.2.Proper :=
  proper_of_readSections h

end UpdateFeed.Toml
