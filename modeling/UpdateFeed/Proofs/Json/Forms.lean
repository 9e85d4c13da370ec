import UpdateFeed.Json.Reader
import UpdateFeed.Proofs.Json.Rewriting
import UpdateFeed.Proofs.Results

/-!
# The form of documents that were read

What is read nests no deeper than is allowed, has no key twice in an object, and holds whole numbers
of at most 64 bits.  Writing strings into a document keeps all of this, and adds no number.

- `Formed`: values of this form.
- `formed_of_read`: what is read is of this form.
- `formed_putString`: an edit keeps the form.
- `Formed.of_numbers`, `Formed.holds_of_mem`: the form and the list of all numbers.
-/

namespace UpdateFeed.Json

/-! ## §1 Values of a form -/

/-- Whether documents can hold a number: with its sign, a whole one keeps to 64 bits. -/
def Number.Fits : Number → Prop
  | .integer value => -(negativeLimit : Int) ≤ value ∧ value < wordLimit
  | .real _ _ => True

/-- A value that nests at most so many levels of arrays and objects, has no key twice in an object,
and whose numbers are all of one kind. -/
inductive Formed (holds : Number → Prop) : Nat → Json → Prop where
  | null {depth : Nat} : Formed holds depth .null
  | boolean {depth : Nat} (value : Bool) : Formed holds depth (.boolean value)
  | number {depth : Nat} {value : Number} (h : holds value) : Formed holds depth (.number value)
  | string {depth : Nat} (text : String) : Formed holds depth (.string text)
  | array {depth : Nat} {items : List Json} (h : ∀ item ∈ items, Formed holds depth item) :
      Formed holds (depth + 1) (.array items)
  | object {depth : Nat} {members : Members} (hkeys : (members.map Prod.fst).Nodup)
      (h : ∀ member ∈ members, Formed holds depth member.2) :
      Formed holds (depth + 1) (.object members)

mutual

/-- The numbers of a value, in order. -/
def numbers : Json → List Number
  | .number value => [value]
  | .array items => itemsNumbers items
  | .object members => membersNumbers members
  | _ => []

/-- The numbers of some items. -/
def itemsNumbers : List Json → List Number
  | [] => []
  | item :: items => numbers item ++ itemsNumbers items

/-- The numbers of the values of some members. -/
def membersNumbers : List (String × Json) → List Number
  | [] => []
  | (_, value) :: members => numbers value ++ membersNumbers members

end

theorem mem_itemsNumbers {number : Number} {items : List Json} :
    number ∈ itemsNumbers items ↔ ∃ item ∈ items, number ∈ item.numbers := by
  induction items with
  | nil => simp [itemsNumbers]
  | cons item items ih => simp [itemsNumbers, ih]

theorem mem_membersNumbers {number : Number} {members : Members} :
    number ∈ membersNumbers members ↔ ∃ member ∈ members, number ∈ member.2.numbers := by
  induction members with
  | nil => simp [membersNumbers]
  | cons member members ih =>
    obtain ⟨key, value⟩ := member
    simp [membersNumbers, ih]

variable {holds also : Number → Prop} {depth : Nat} {value : Json}

/-- The numbers of a value are of the kind of the form. -/
theorem Formed.holds_of_mem (h : Formed holds depth value) :
    ∀ number ∈ value.numbers, holds number := by
  induction h with
  | null => simp [numbers]
  | boolean => simp [numbers]
  | string => simp [numbers]
  | number hvalue =>
    intro number hnumber
    rw [numbers, List.mem_singleton] at hnumber
    rwa [hnumber]
  | array _ ih =>
    intro number hnumber
    rw [numbers, mem_itemsNumbers] at hnumber
    obtain ⟨item, hitem, hnumber⟩ := hnumber
    exact ih item hitem number hnumber
  | object _ _ ih =>
    intro number hnumber
    rw [numbers, mem_membersNumbers] at hnumber
    obtain ⟨member, hmember, hnumber⟩ := hnumber
    exact ih member hmember number hnumber

/-- What holds of all numbers of a value can be added to its form. -/
theorem Formed.of_numbers (h : Formed holds depth value)
    (hnumbers : ∀ number ∈ value.numbers, also number) :
    Formed (fun number => holds number ∧ also number) depth value := by
  induction h with
  | null => exact .null
  | boolean value => exact .boolean value
  | string text => exact .string text
  | number hvalue => exact .number ⟨hvalue, hnumbers _ (by simp [numbers])⟩
  | array _ ih =>
    refine .array fun item hitem => ih item hitem fun number hnumber => ?_
    apply hnumbers
    rw [numbers, mem_itemsNumbers]
    exact ⟨item, hitem, hnumber⟩
  | object hkeys _ ih =>
    refine .object hkeys fun member hmember => ih member hmember fun number hnumber => ?_
    apply hnumbers
    rw [numbers, mem_membersNumbers]
    exact ⟨member, hmember, hnumber⟩

/-! ## §2 Edits -/

/-- A member after a write is the new one or was there before. -/
theorem mem_assign {key : String} {new : Json} {members : Members} {member : String × Json}
    (h : member ∈ assign key new members) : member = (key, new) ∨ member ∈ members := by
  fun_induction assign key new members with
  | case1 => simpa using h
  | case2 old members =>
    rcases List.mem_cons.mp h with h | h
    · exact .inl h
    · exact .inr (List.mem_cons_of_mem _ h)
  | case3 k old members hne ih =>
    rcases List.mem_cons.mp h with h | h
    · exact .inr (h ▸ List.mem_cons_self)
    · exact (ih h).imp id (List.mem_cons_of_mem _)

/-- A write gives no key twice. -/
theorem nodup_assign {members : Members} (h : (members.map Prod.fst).Nodup) (key : String)
    (new : Json) : ((assign key new members).map Prod.fst).Nodup := by
  rw [keys_assign]
  split
  · exact h
  · rename_i hkey
    refine List.nodup_append.mpr ⟨h, by simp, ?_⟩
    intro other hother last hlast hsame
    rw [List.mem_singleton] at hlast
    exact hkey (hlast ▸ hsame ▸ hother)

theorem mem_of_lookup {key : String} {found : Json} {members : Members}
    (h : lookup key members = some found) : (key, found) ∈ members := by
  fun_induction lookup key members with
  | case1 => simp at h
  | case2 => simp_all
  | case3 k other members hne ih => exact List.mem_cons_of_mem _ (ih h)

/-- A write of a value of the form keeps the form of an object. -/
theorem Formed.assign {members : Members} {new : Json}
    (h : Formed holds (depth + 1) (.object members)) (hnew : Formed holds depth new)
    (key : String) : Formed holds (depth + 1) (.object (assign key new members)) := by
  cases h with
  | object hkeys hmembers =>
    refine .object (nodup_assign hkeys key new) fun member hmember => ?_
    rcases mem_assign hmember with rfl | hmember
    · exact hnew
    · exact hmembers member hmember

/-- An edit keeps the form. -/
theorem formed_putString {leaf text : String} {keys : List String} {changed : Json}
    (h : Formed holds depth value) (hedit : putString leaf text keys value = .ok changed) :
    Formed holds depth changed := by
  fun_induction putString leaf text keys value generalizing depth changed with
  | case1 members =>
    obtain rfl := Except.ok.inj hedit
    cases h with
    | object hkeys hmembers => exact (Formed.object hkeys hmembers).assign (.string text) leaf
  | case2 => simp at hedit
  -- below a key the edit is one of that member, which is put back under its key
  | case3 key keys members found hfound new hnew ih =>
    obtain rfl := Except.ok.inj hedit
    cases h with
    | object hkeys hmembers =>
      have hvalue := hmembers _ (mem_of_lookup hfound)
      exact (Formed.object hkeys hmembers).assign (ih hvalue hnew) key
  | case4 => simp at hedit
  | case5 => simp at hedit

/-! ## §3 Numbers that are read -/

/-- A whole number fits. -/
theorem fits_wholeNumber (negative : Bool) {significand : Nat} (h : significand < wordLimit) :
    (wholeNumber negative significand).Fits := by
  unfold wholeNumber
  split
  · exact ⟨by simp [negativeLimit], by exact_mod_cast h⟩
  · split
    · exact trivial
    · rename_i hsmall
      have hlimit : wordLimit = 2 * negativeLimit := rfl
      exact ⟨by omega, by omega⟩

/-- The value of a literal fits. -/
theorem fits_of_value {literal : NumberLiteral} {number : Number}
    (h : literal.value = .ok number) : number.Fits := by
  unfold NumberLiteral.value at h
  have hwhole := gather_fst_lt (show 0 < wordLimit by decide) literal.whole
  revert h hwhole
  rcases gather 0 literal.whole with ⟨whole, left⟩
  intro h hwhole
  -- only a literal of a whole part that fits gives a whole number
  dsimp only at h
  split at h
  · obtain rfl := Except.ok.inj h
    exact fits_wholeNumber literal.negative hwhole
  · have hreal : ∃ negative magnitude, number = .real negative magnitude := by
      grind
    obtain ⟨negative, magnitude, rfl⟩ := hreal
    exact trivial

theorem fits_of_readNumber {negative : Bool} {text rest : List Char} {number : Number}
    (h : readNumber negative text = .ok (number, rest)) : number.Fits := by
  unfold readNumber at h
  obtain ⟨⟨whole, _⟩, _, h⟩ := exists_of_bind_eq_ok h
  obtain ⟨⟨fraction?, _⟩, _, h⟩ := exists_of_bind_eq_ok h
  obtain ⟨⟨⟨exponent?, _⟩, _⟩, _, h⟩ := exists_of_bind_eq_ok h
  dsimp only at h
  split at h
  · rename_i value hvalue
    obtain ⟨rfl, -⟩ := Prod.mk.inj (Except.ok.inj h)
    exact fits_of_value hvalue
  · simp [failBefore] at h
  · simp [failBefore] at h

/-! ## §4 Values that are read -/

/-- Where an item or member starts: behind a comma, unless it is the first one. -/
def entryStart (first : Bool) (noComma : Fault) (c : Char) (rest : List Char) :
    Except Failure (List Char) :=
  if first then .ok (c :: rest)
  else if c = ',' then .ok (skipBlanks rest)
  else failAfter noComma (c :: rest)

/-- One turn of reading items. -/
theorem readItems_succ (readItem : Reader Json) (bound : Nat) (first : Bool) (text : List Char) :
    readItems readItem (bound + 1) first text =
      match skipBlanks text with
      | [] => failBefore .endInArray []
      | ']' :: rest => .ok ([], rest)
      | c :: rest =>
        entryStart first .noCommaOrBracket c rest >>= fun start =>
          match start with
          | [] => failBefore .endInValue []
          | ']' :: _ => failAfter .trailingComma start
          | _ =>
            readItem start >>= fun read =>
              (readItems readItem bound false read.2).map fun others =>
                (read.1 :: others.1, others.2) := by
  rw [readItems]
  generalize skipBlanks text = blanks
  split
  · rfl
  · rfl
  · simp only
    unfold entryStart
    split
    · rfl
    · split <;> rfl

/-- One turn of reading members. -/
theorem readMembers_succ (readValue : Reader Json) (bound : Nat) (first : Bool)
    (members : Members) (text : List Char) :
    readMembers readValue (bound + 1) first members text =
      match skipBlanks text with
      | [] => failBefore .endInObject []
      | '\x7d' :: rest => .ok (members, rest)
      | c :: rest =>
        entryStart first .noCommaOrBrace c rest >>= fun start =>
          match start with
          | [] => failBefore .endInValue []
          | '"' :: rest =>
            readText rest >>= fun key =>
              readColon key.2 >>= fun colon =>
                readValue colon.2 >>= fun read =>
                  readMembers readValue bound false
                    (assign (String.ofList key.1) read.1 members) read.2
          | '\x7d' :: _ => failAfter .trailingComma start
          | _ => failAfter .keyNotText start := by
  rw [readMembers]
  generalize skipBlanks text = blanks
  split
  · rfl
  · rfl
  · simp only
    unfold entryStart
    split
    · rfl
    · split <;> rfl

/-- What holds of each item that is read holds of all of them. -/
theorem forall_of_readItems {readItem : Reader Json} {good : Json → Prop}
    (hgood : ∀ text item rest, readItem text = .ok (item, rest) → good item) {bound : Nat}
    {first : Bool} {text rest : List Char} {items : List Json}
    (h : readItems readItem bound first text = .ok (items, rest)) : ∀ item ∈ items, good item := by
  induction bound generalizing first text items rest with
  | zero => simp [readItems, failBefore] at h
  | succ bound ih =>
    rw [readItems_succ] at h
    split at h
    · simp [failBefore] at h
    · obtain ⟨rfl, -⟩ := Prod.mk.inj (Except.ok.inj h)
      simp
    · obtain ⟨start, _, h⟩ := exists_of_bind_eq_ok h
      split at h
      · simp [failBefore] at h
      · simp [failAfter] at h
      · obtain ⟨⟨item, between⟩, hitem, h⟩ := exists_of_bind_eq_ok h
        obtain ⟨⟨others, last⟩, hothers, h⟩ := map_eq_ok.mp h
        obtain ⟨rfl, -⟩ := Prod.mk.inj h
        intro other hother
        rcases List.mem_cons.mp hother with rfl | hother
        · exact hgood _ _ _ hitem
        · exact ih hothers other hother

/-- What is read as an object has the form of one. -/
theorem formed_of_readMembers {readValue : Reader Json}
    (hvalue : ∀ text value rest, readValue text = .ok (value, rest) → Formed holds depth value)
    {bound : Nat} {first : Bool} {before members : Members} {text rest : List Char}
    (hbefore : Formed holds (depth + 1) (.object before))
    (h : readMembers readValue bound first before text = .ok (members, rest)) :
    Formed holds (depth + 1) (.object members) := by
  -- the members before are those of an object of the form, and each turn writes one into it
  induction bound generalizing first before text with
  | zero => simp [readMembers, failBefore] at h
  | succ bound ih =>
    rw [readMembers_succ] at h
    split at h
    · simp [failBefore] at h
    · obtain ⟨rfl, -⟩ := Prod.mk.inj (Except.ok.inj h)
      exact hbefore
    · obtain ⟨start, _, h⟩ := exists_of_bind_eq_ok h
      split at h
      · simp [failBefore] at h
      · obtain ⟨key, _, h⟩ := exists_of_bind_eq_ok h
        obtain ⟨colon, _, h⟩ := exists_of_bind_eq_ok h
        obtain ⟨⟨value, afterValue⟩, hread, h⟩ := exists_of_bind_eq_ok h
        exact ih (hbefore.assign (hvalue _ _ _ hread) (String.ofList key.1)) h
      · simp [failAfter] at h
      · simp [failAfter] at h

/-- What is read as a value is of the form if what is read one level deeper is. -/
theorem formed_of_readValue_step
    (hbelow : ∀ below, depth = below + 1 → ∀ text value rest,
      readValue below text = .ok (value, rest) → Formed Number.Fits below value)
    {text rest : List Char} (h : readValue depth text = .ok (value, rest)) :
    Formed Number.Fits depth value := by
  unfold readValue at h
  split at h
  · simp [failBefore] at h
  · obtain ⟨_, _, h⟩ := map_eq_ok.mp h
    obtain ⟨rfl, -⟩ := Prod.mk.inj h
    exact .null
  · obtain ⟨_, _, h⟩ := map_eq_ok.mp h
    obtain ⟨rfl, -⟩ := Prod.mk.inj h
    exact .boolean true
  · obtain ⟨_, _, h⟩ := map_eq_ok.mp h
    obtain ⟨rfl, -⟩ := Prod.mk.inj h
    exact .boolean false
  · obtain ⟨_, _, h⟩ := map_eq_ok.mp h
    obtain ⟨rfl, -⟩ := Prod.mk.inj h
    exact .string _
  · obtain ⟨_, hnumber, h⟩ := map_eq_ok.mp h
    obtain ⟨rfl, -⟩ := Prod.mk.inj h
    exact .number (fits_of_readNumber hnumber)
  · -- arrays and objects are read one level deeper, and there the hypothesis speaks of their parts
    cases depth with
    | zero => simp [failAfter] at h
    | succ below =>
      obtain ⟨_, hitems, h⟩ := map_eq_ok.mp h
      obtain ⟨rfl, -⟩ := Prod.mk.inj h
      exact .array (forall_of_readItems (hbelow below rfl) hitems)
  · cases depth with
    | zero => simp [failAfter] at h
    | succ below =>
      obtain ⟨_, hmembers, h⟩ := map_eq_ok.mp h
      obtain ⟨rfl, -⟩ := Prod.mk.inj h
      have hnone : Formed Number.Fits (below + 1) (.object []) := .object (by simp) (by simp)
      exact formed_of_readMembers (hbelow below rfl) hnone hmembers
  · split at h
    · obtain ⟨_, hnumber, h⟩ := map_eq_ok.mp h
      obtain ⟨rfl, -⟩ := Prod.mk.inj h
      exact .number (fits_of_readNumber hnumber)
    · simp [failAfter] at h

/-- What is read as a value is of the form. -/
theorem formed_of_readValue {text rest : List Char}
    (h : readValue depth text = .ok (value, rest)) : Formed Number.Fits depth value := by
  induction depth generalizing text value rest with
  | zero =>
    refine formed_of_readValue_step ?_ h
    intro below hdepth
    omega
  | succ depth ih =>
    refine formed_of_readValue_step ?_ h
    intro below hdepth text value rest hread
    obtain rfl : depth = below := by omega
    exact ih hread

/-- What is read as a whole text is read as a value at its start. -/
theorem exists_readValue_of_read {text : List Char} (h : read text = .ok value) :
    ∃ rest, readValue depthLimit text = .ok (value, rest) := by
  obtain ⟨⟨root, rest⟩, hread, h⟩ := exists_of_bind_eq_ok h
  dsimp only at h
  split at h
  · obtain rfl := Except.ok.inj h
    exact ⟨rest, hread⟩
  · simp [failAfter] at h

/-- What is read as a whole text is of the form. -/
theorem formed_of_read {text : List Char} (h : read text = .ok value) :
    Formed Number.Fits depthLimit value := by
  obtain ⟨rest, hread⟩ := exists_readValue_of_read h
  exact formed_of_readValue hread

end UpdateFeed.Json
