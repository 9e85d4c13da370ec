import UpdateFeed.Glob.Match
import Mathlib.Tactic.SplitIfs

/-!
# What tokens leave

A list of tokens is matched by carrying the set of rests along.  Since each rest is treated by
itself, what is left behind a list can be followed one rest at a time: through the first token to
something between, and from there through the other tokens.

Bytes are taken as they are, so a slash is found in them only where a text has one.

- `mem_restsAll_cons`, `mem_restsAll_append`: a way through a list of tokens.
- `textBytes_append_inj`: texts whose bytes agree at the start agree themselves.
-/

namespace UpdateFeed.Glob

/-! ## §1 Bytes of texts -/

theorem charBytes_slash : charBytes '/' = [slash] := by decide

/-- No other character has the byte of a slash in it. -/
theorem slash_notMem_charBytes {c : Char} (h : c ≠ '/') : slash ∉ charBytes c := by
  have hcode : c.val.toNat ≠ 0x2F := by
    intro heq
    apply h
    apply Char.ext
    apply UInt32.toNat_inj.mp
    exact heq
  intro hmem
  unfold charBytes String.utf8EncodeChar at hmem
  dsimp only at hmem
  -- every byte of a longer encoding has its highest bit set
  split_ifs at hmem with h₁ h₂ h₃
  all_goals
    simp only [List.mem_cons, List.not_mem_nil, or_false, slash, ← UInt8.toNat_inj,
      UInt8.toNat_ofNat, UInt8.toNat_ofNat'] at hmem
    omega

theorem charBytes_append_inj {c d : Char} {first second : Bytes}
    (h : charBytes c ++ first = charBytes d ++ second) : c = d ∧ first = second := by
  -- the first character can be decoded whatever follows its bytes
  have hdecode : ∀ (c : Char) (rest : Bytes),
      (charBytes c ++ rest).toByteArray.utf8DecodeChar? 0 = some c := by
    intro c rest
    rw [List.toByteArray_append]
    exact ByteArray.utf8DecodeChar?_utf8EncodeChar_append
  have hchar : some c = some d := by
    rw [← hdecode c first, ← hdecode d second, h]
  obtain rfl := Option.some.inj hchar
  exact ⟨rfl, List.append_cancel_left h⟩

theorem charBytes_ne_nil (c : Char) : charBytes c ≠ [] := by
  intro hempty
  have hpos := c.utf8Size_pos
  rw [← String.length_utf8EncodeChar] at hpos
  unfold charBytes at hempty
  rw [hempty] at hpos
  cases hpos

theorem textBytes_eq (text : String) : textBytes text = text.toList.flatMap charBytes := rfl

/-- Characters whose bytes stand at the start of those of others stand at their start. -/
theorem textBytes_append_inj {first second : List Char} {rest : Bytes}
    (h : first.flatMap charBytes ++ rest = second.flatMap charBytes) :
    ∃ more, second = first ++ more ∧ rest = more.flatMap charBytes := by
  induction first generalizing second with
  | nil => exact ⟨second, rfl, h⟩
  | cons c first ih =>
    cases second with
    | nil =>
      -- nothing is left of the second text, but the first one has a character more
      simp only [List.flatMap_cons, List.flatMap_nil, List.append_eq_nil_iff] at h
      exact absurd h.1.1 (charBytes_ne_nil c)
    | cons d second =>
      -- both texts begin with the same character, and go on with bytes that agree
      simp only [List.flatMap_cons, List.append_assoc] at h
      obtain ⟨rfl, hrest⟩ := charBytes_append_inj h
      obtain ⟨more, rfl, hmore⟩ := ih hrest
      exact ⟨more, rfl, hmore⟩

/-! ## §2 Ways through tokens -/

theorem dropLead?_eq_some_iff {lead bytes rest : Bytes} :
    dropLead? lead bytes = some rest ↔ bytes = lead ++ rest := by
  induction lead generalizing bytes with
  | nil => simp [dropLead?]
  | cons b lead ih =>
    cases bytes with
    | nil => simp [dropLead?]
    | cons b' bytes =>
      unfold dropLead?
      split_ifs with hb
      · subst hb
        simp [ih]
      · simp [eq_comm, hb]

theorem mem_rests_literal {c : Char} {bytes rest : Bytes} :
    rest ∈ (Token.literal c).rests bytes ↔ bytes = charBytes c ++ rest := by
  rw [rests_literal, Option.mem_toList, dropLead?_eq_some_iff]

theorem mem_oneByte {admits : UInt8 → Bool} {bytes rest : Bytes} :
    rest ∈ oneByte admits bytes ↔ ∃ b, bytes = b :: rest ∧ admits b = true := by
  cases bytes with
  | nil => simp [oneByte]
  | cons b bytes =>
    rw [oneByte]
    split_ifs with hb
    · constructor
      · intro h
        obtain rfl := List.mem_singleton.mp h
        exact ⟨b, rfl, hb⟩
      · rintro ⟨b', heq, _⟩
        obtain ⟨-, rfl⟩ := List.cons.inj heq
        exact List.mem_singleton.mpr rfl
    · constructor
      · intro h
        cases h
      · rintro ⟨b', heq, hb'⟩
        obtain ⟨rfl, -⟩ := List.cons.inj heq
        exact absurd hb' hb

/-- What a star leaves stands behind bytes without a slash. -/
theorem mem_endsInName {bytes rest : Bytes} (h : rest ∈ endsInName bytes) :
    ∃ front, bytes = front ++ rest ∧ slash ∉ front := by
  induction bytes with
  | nil =>
    obtain rfl : rest = [] := by simpa [endsInName] using h
    exact ⟨[], rfl, by simp⟩
  | cons b bytes ih =>
    -- a star takes no byte, or one that is no slash and then more
    rcases List.mem_cons.mp h with rfl | h
    · exact ⟨[], rfl, by simp⟩
    · split_ifs at h with hb
      · simp at h
      · obtain ⟨front, rfl, hfront⟩ := ih h
        refine ⟨b :: front, rfl, ?_⟩
        simp [hfront, Ne.symm hb]

@[simp] theorem restsAll_nil (starts : List Bytes) : restsAll [] starts = starts := by
  simp [restsAll]

/-- Each start is treated by itself. -/
theorem mem_restsAll {tokens : List Token} {starts : List Bytes} {rest : Bytes} :
    rest ∈ restsAll tokens starts ↔ ∃ start ∈ starts, rest ∈ restsAll tokens [start] := by
  induction tokens generalizing starts with
  | nil => simp
  | cons token tokens ih =>
    -- the other tokens start from all that the first one leaves, so `ih` names one of these rests
    rw [restsAll, ih]
    constructor
    · rintro ⟨between, hbetween, hrest⟩
      -- it is left of one of the starts, which is the one that is followed
      obtain ⟨start, hstart, hbetween⟩ := List.mem_flatMap.mp (List.mem_eraseDups.mp hbetween)
      refine ⟨start, hstart, ?_⟩
      rw [restsAll, ih]
      refine ⟨between, List.mem_eraseDups.mpr ?_, hrest⟩
      simpa using hbetween
    · rintro ⟨start, hstart, hrest⟩
      rw [restsAll, ih] at hrest
      obtain ⟨between, hbetween, hrest⟩ := hrest
      refine ⟨between, List.mem_eraseDups.mpr ?_, hrest⟩
      have hone := List.mem_eraseDups.mp hbetween
      simp only [List.flatMap_cons, List.flatMap_nil, List.append_nil] at hone
      exact List.mem_flatMap.mpr ⟨start, hstart, hone⟩

/-- A way through a list of tokens goes through the first one and then through the others. -/
theorem mem_restsAll_cons {token : Token} {tokens : List Token} {start rest : Bytes} :
    rest ∈ restsAll (token :: tokens) [start] ↔
      ∃ between ∈ token.rests start, rest ∈ restsAll tokens [between] := by
  rw [restsAll, mem_restsAll]
  simp [List.mem_eraseDups]

theorem mem_restsAll_append {first second : List Token} {start rest : Bytes} :
    rest ∈ restsAll (first ++ second) [start] ↔
      ∃ between ∈ restsAll first [start], rest ∈ restsAll second [between] := by
  induction first generalizing start with
  | nil => simp
  | cons token first ih =>
    rw [List.cons_append, mem_restsAll_cons]
    constructor
    · rintro ⟨next, hnext, hrest⟩
      obtain ⟨between, hbetween, hrest⟩ := ih.mp hrest
      exact ⟨between, mem_restsAll_cons.mpr ⟨next, hnext, hbetween⟩, hrest⟩
    · rintro ⟨between, hbetween, hrest⟩
      obtain ⟨next, hnext, hbetween⟩ := mem_restsAll_cons.mp hbetween
      exact ⟨next, hnext, ih.mpr ⟨between, hbetween, hrest⟩⟩

/-- A way through literals spells them. -/
theorem mem_restsAll_literals {chars : List Char} {tokens : List Token} {start rest : Bytes}
    (h : rest ∈ restsAll (chars.map Token.literal ++ tokens) [start]) :
    ∃ between, start = chars.flatMap charBytes ++ between
      ∧ rest ∈ restsAll tokens [between] := by
  induction chars generalizing start with
  | nil => exact ⟨start, rfl, h⟩
  | cons c chars ih =>
    -- the first literal takes the bytes of its character
    obtain ⟨next, hnext, h⟩ := mem_restsAll_cons.mp h
    obtain ⟨between, rfl, hrest⟩ := ih h
    refine ⟨between, ?_, hrest⟩
    rw [mem_rests_literal.mp hnext, List.flatMap_cons, List.append_assoc]

/-- Apart from leading directories alone, a path matches when nothing of it is left. -/
theorem matchesPath_iff {tokens : List Token} {path : String} :
    matchesPath tokens path = true ↔
      tokens = [.leadingDirectories] ∨ [] ∈ restsAll tokens [textBytes path] := by
  unfold matchesPath
  split
  · simp
  · rename_i hne
    rw [List.contains_iff_mem]
    constructor
    · exact .inr
    · rintro (heq | hmem)
      · exact absurd heq (by simpa using hne)
      · exact hmem

end UpdateFeed.Glob
