import Mathlib.Data.String.Basic
import Mathlib.Tactic.SplitIfs
import UpdateFeed.Session

/-!
# The byte order of texts

Texts are ordered by their characters, and characters by their code points.  The bytes of a text
give the same order: the first byte of a longer encoding is greater than every first byte of a
shorter one, and within one length the bytes hold the code point from its highest digits on.

- `encoding_lt_encoding`: a smaller character has smaller bytes, whatever follows them.
- `utf8Bytes_lt_iff`: the order of texts is that of their bytes.
-/

namespace UpdateFeed

/-- The bytes of a smaller character are smaller, whatever follows them. -/
theorem encoding_lt_encoding {c d : Char} (h : c < d) (first second : List UInt8) :
    String.utf8EncodeChar c ++ first < String.utf8EncodeChar d ++ second := by
  have hcode : c.val.toNat < d.val.toNat := h
  have hbound : d.val.toNat < 0x110000 := by
    have hvalid := d.valid
    simp only [UInt32.isValidChar, Nat.isValidChar] at hvalid
    omega
  -- the bytes behind the first one are digits of the code point to the base 64
  have hdigits : ∀ code : Nat, code = 64 * (code / 64) + code % 64
      ∧ code / 64 = 64 * (code / 4096) + code / 64 % 64
      ∧ code / 4096 = 64 * (code / 262144) + code / 4096 % 64 := by
    omega
  obtain ⟨hc, hc', hc''⟩ := hdigits c.val.toNat
  obtain ⟨hd, hd', hd''⟩ := hdigits d.val.toNat
  unfold String.utf8EncodeChar
  dsimp only
  -- one to four bytes, and the greater character does not have fewer of them
  split_ifs
  all_goals
    simp only [List.cons_append, List.nil_append, List.cons_lt_cons_iff, UInt8.lt_iff_toNat_lt,
      ← UInt8.toNat_inj, UInt8.toNat_ofNat']
    simp (disch := omega) only [Nat.mod_eq_of_lt]
    omega

theorem utf8Bytes_eq (text : String) :
    utf8Bytes text = text.toList.flatMap String.utf8EncodeChar := by
  rw [utf8Bytes, String.toUTF8_eq_toByteArray, ← String.utf8Encode_toList, List.utf8Encode,
    List.data_toByteArray]

private theorem encodings_lt_encodings {first second : List Char} (h : first < second) :
    first.flatMap String.utf8EncodeChar < second.flatMap String.utf8EncodeChar := by
  induction first generalizing second with
  | nil =>
    cases second with
    | nil => exact absurd h (List.lt_irrefl [])
    | cons d second =>
      -- a character has at least one byte
      have hpos := d.utf8Size_pos
      rw [← String.length_utf8EncodeChar] at hpos
      obtain ⟨byte, bytes, hbytes⟩ := List.exists_cons_of_length_pos hpos
      rw [List.flatMap_cons, hbytes]
      exact List.nil_lt_cons _ _
  | cons c first ih =>
    cases second with
    | nil => exact absurd h (List.not_lt_nil _)
    | cons d second =>
      rw [List.flatMap_cons, List.flatMap_cons]
      rcases List.cons_lt_cons_iff.mp h with hlt | ⟨rfl, hrest⟩
      · exact encoding_lt_encoding hlt _ _
      · exact List.append_left_lt (ih hrest)

/-- The order of texts is that of their bytes. -/
theorem utf8Bytes_lt_iff {first second : String} :
    utf8Bytes first < utf8Bytes second ↔ first < second := by
  have hbytes : ∀ {first second : String}, first < second →
      utf8Bytes first < utf8Bytes second := by
    intro first second h
    rw [utf8Bytes_eq, utf8Bytes_eq]
    exact encodings_lt_encodings (String.lt_iff.mp h)
  constructor
  · intro h
    -- texts that are equal or the other way round have bytes that are so too
    rcases lt_trichotomy first second with hlt | rfl | hgt
    · exact hlt
    · exact absurd h (List.lt_irrefl _)
    · exact absurd h (List.lt_asymm (hbytes hgt))
  · exact hbytes

end UpdateFeed
