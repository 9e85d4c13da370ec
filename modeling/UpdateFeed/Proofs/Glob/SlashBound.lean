import UpdateFeed.Proofs.Glob.SlashReading
import UpdateFeed.Proofs.Path

/-!
# The names of a pattern bound those of its paths

Each name that a pattern spells out behind a slash gives at most one slash to the tokens that are
read from it.  So a path that the tokens match, when they take no slashes of their own, has no more
names than the pattern has between its slashes.

- `settling_lexemes_le`: the slashes that lexemes settle are behind names of the pattern.
- `length_le_of_parse`: the bound on the names of a path.
-/

namespace UpdateFeed.Glob

/-! ## §1 Patterns -/

/-- The characters that begin a name: those other than a slash that stand behind one.  `afterSlash`
says whether there is one before the first character. -/
def nameStarts (afterSlash : Bool) : List Char → Nat
  | [] => 0
  | c :: rest => (if afterSlash && c ≠ '/' then 1 else 0) + nameStarts (c = '/') rest

theorem nameStarts_false_le (afterSlash : Bool) (chars : List Char) :
    nameStarts false chars ≤ nameStarts afterSlash chars := by
  cases chars with
  | nil => exact Nat.le_refl _
  | cons c rest => simp [nameStarts]

theorem nameStarts_false_cons_le (c : Char) (rest : List Char) :
    nameStarts false rest ≤ nameStarts false (c :: rest) := by
  simp only [nameStarts, Bool.false_and, Bool.false_eq_true, if_false, Nat.zero_add]
  exact nameStarts_false_le _ rest

/-- A sign of a pattern settles what its character does. -/
theorem settling_sign_le {lexeme : Lexeme} {c : Char} {others : List Lexeme} {rest : List Char}
    (hc : c ≠ '/') (hlast : lexeme.last ≠ '/')
    (h : ∀ afterSlash, settling afterSlash others ≤ nameStarts afterSlash rest)
    (afterSlash : Bool) :
    settling afterSlash (lexeme :: others) ≤ nameStarts afterSlash (c :: rest) := by
  have hlexeme : lexeme ≠ .char '/' := by
    rintro rfl
    exact hlast rfl
  have hrest := h false
  simp only [settling, nameStarts, hc, hlast, hlexeme, ne_eq, not_false_eq_true, decide_true,
    decide_false]
  omega

theorem settling_cons_le (afterSlash : Bool) {lexeme : Lexeme} (hlast : lexeme.last ≠ '/')
    (others : List Lexeme) :
    settling afterSlash (lexeme :: others) ≤ afterSlash.toNat + settling false others := by
  simp only [settling, hlast, decide_false]
  cases afterSlash <;> simp
  split_ifs <;> omega

/-- A bracket settles what its first character does. -/
theorem settling_bracket_le {others : List Lexeme} {rest : List Char}
    (h : ∀ afterSlash, settling afterSlash others ≤ afterSlash.toNat + nameStarts false rest)
    (afterSlash : Bool) : settling afterSlash others ≤ nameStarts afterSlash ('[' :: rest) := by
  have hrest := h afterSlash
  have hbracket : ('[' : Char) ≠ '/' := by decide
  cases afterSlash <;> simp [nameStarts, hbracket] at hrest ⊢ <;> omega

/-- The lexemes of a pattern settle no more slashes than its names begin behind one. -/
theorem settling_lexemes_le (afterSlash : Bool) (chars : List Char) :
    settling afterSlash (lexemes chars) ≤ nameStarts afterSlash chars := by
  revert afterSlash
  -- what a bracket lists is left out, so it settles the slash before it and no other one
  apply lexemes.induct
    (fun chars => ∀ afterSlash, settling afterSlash (lexemes chars) ≤ nameStarts afterSlash chars)
    (fun negated ranges first inRange chars => ∀ afterSlash,
      settling afterSlash (classLexemes negated ranges first inRange chars) ≤
        afterSlash.toNat + nameStarts false chars)
  case case1 =>
    intro afterSlash
    exact Nat.zero_le _
  case case2 | case3 | case4 | case5 | case6 =>
    intro rest ih
    rw [lexemes]
    exact settling_sign_le (by decide) (by decide) ih
  -- the sign of negation is passed over like what is listed
  case case7 =>
    intro rest ih
    rw [lexemes]
    apply settling_bracket_le
    intro afterSlash
    have hsign := nameStarts_false_cons_le '!' rest
    have hrest := ih afterSlash
    omega
  case case8 =>
    intro rest ih
    rw [lexemes]
    apply settling_bracket_le
    intro afterSlash
    have hsign := nameStarts_false_cons_le '^' rest
    have hrest := ih afterSlash
    omega
  case case9 =>
    intro rest hbang hcaret ih
    rw [lexemes]
    · exact settling_bracket_le ih
    · exact hbang
    · exact hcaret
  case case10 =>
    intro afterSlash
    rw [lexemes]
    have hlast : (Lexeme.broken .danglingBackslash).last ≠ '/' := by decide
    have hbroken := settling_cons_le afterSlash hlast []
    cases afterSlash <;> simp [nameStarts, settling] at hbroken ⊢
  case case11 =>
    intro c rest ih afterSlash
    rw [lexemes]
    -- the backslash settles the slash before it, and an escaped slash waits for a name of its own
    have hrest := ih (c = '/')
    have hsettling : settling afterSlash (.escaped c :: lexemes rest) =
        afterSlash.toNat + settling (c = '/') (lexemes rest) := by
      cases afterSlash <;> rfl
    have hstarts : nameStarts afterSlash ('\\' :: c :: rest) =
        afterSlash.toNat + (0 + nameStarts (c = '/') rest) := by
      cases afterSlash <;> rfl
    omega
  case case12 =>
    intro c rest _ _ _ _ _ _ _ _ _ _ ih
    rw [lexemes]
    · by_cases hc : c = '/'
      · subst hc
        intro afterSlash
        have hrest := ih true
        simpa [settling, nameStarts, Lexeme.last] using hrest
      · exact settling_sign_le hc hc ih
    all_goals assumption
  case case13 =>
    intro negated ranges first inRange afterSlash
    rw [classLexemes]
    exact settling_cons_le afterSlash (by decide) []
  case case14 =>
    intro negated ranges first inRange c rest hend ih afterSlash
    rw [classLexemes, if_pos hend]
    dsimp only
    generalize CharClass.mk negated _ = listed
    have hlast : (Lexeme.charClass listed).last ≠ '/' := by
      show ']' ≠ '/'
      decide
    have hclass := settling_cons_le afterSlash hlast (lexemes rest)
    have hrest := ih false
    have hsign := nameStarts_false_cons_le c rest
    omega
  case case15 =>
    intro negated ranges first inRange c rest hend hdash ih afterSlash
    rw [classLexemes, if_neg hend, if_pos hdash]
    have hrest := ih afterSlash
    have hsign := nameStarts_false_cons_le c rest
    omega
  case case16 =>
    intro negated ranges first inRange c rest hend hdash hrange fault hfault afterSlash
    rw [classLexemes, if_neg hend, if_neg hdash, if_pos hrange, hfault]
    have hlast : (Lexeme.broken fault).last ≠ '/' := by
      show '\\' ≠ '/'
      decide
    have hbroken := settling_cons_le afterSlash hlast []
    exact Nat.le_trans hbroken (Nat.add_le_add_left (Nat.zero_le _) _)
  case case17 =>
    intro negated ranges first inRange c rest hend hdash hrange extended hextended ih afterSlash
    rw [classLexemes, if_neg hend, if_neg hdash, if_pos hrange, hextended]
    have hrest := ih afterSlash
    have hsign := nameStarts_false_cons_le c rest
    dsimp only
    omega
  case case18 =>
    intro negated ranges first inRange c rest hend hdash hrange ih afterSlash
    rw [classLexemes, if_neg hend, if_neg hdash, if_neg hrange]
    have hrest := ih afterSlash
    have hsign := nameStarts_false_cons_le c rest
    omega

/-! ## §2 Names -/

/-- The names of some characters begin at their start or behind a slash. -/
theorem nameStarts_eq (chars : List Char) :
    nameStarts true chars = ((chars.splitOn '/').filter (· ≠ [])).length
      ∧ nameStarts false chars = ((chars.splitOn '/').tail.filter (· ≠ [])).length := by
  induction chars with
  | nil => exact ⟨rfl, rfl⟩
  | cons c rest ih =>
    obtain ⟨htrue, hfalse⟩ := ih
    rw [List.splitOn_cons_eq_if_modifyHead]
    by_cases hc : c = '/'
    · subst hc
      simp [nameStarts, htrue]
    · obtain ⟨first, others, hsplit⟩ := List.exists_cons_of_ne_nil (List.splitOn_ne_nil '/' rest)
      rw [hsplit] at hfalse ⊢
      simp [nameStarts, hc, hfalse, Nat.add_comm]

theorem length_plainNames (path : String) :
    (Path.plainNames path).length = nameStarts true path.toList := by
  rw [(nameStarts_eq path.toList).1, Path.plainNames, Path.segments, List.filter_map,
    List.length_map]
  congr 2
  funext segment
  simp

/-- A relative path has one name more than begin behind a slash. -/
theorem length_plainNames_of_relative {path : String} (hne : path ≠ "")
    (h : Path.isAbsolute path = false) :
    (Path.plainNames path).length = nameStarts false path.toList + 1 := by
  obtain ⟨c, rest, heq⟩ := List.exists_cons_of_ne_nil (Path.toList_ne_nil hne)
  have hc : c ≠ '/' := by
    rintro rfl
    simp [Path.isAbsolute, heq] at h
  rw [length_plainNames, heq]
  simp [nameStarts, hc, Nat.add_comm]

theorem count_slash_textBytes (chars : List Char) :
    (chars.flatMap charBytes).count slash = chars.count '/' := by
  induction chars with
  | nil => rfl
  | cons c rest ih =>
    rw [List.flatMap_cons, List.count_append, ih, count_slash_charBytes, List.count_cons]
    simp [Nat.add_comm]

theorem textBytes_append (first second : String) :
    textBytes (first ++ second) = textBytes first ++ textBytes second := by
  simp [textBytes]

theorem textBytes_slash : textBytes "/" = [slash] := by decide

/-- A name is bytes without a slash, and not none. -/
theorem exists_textBytes {name : String} (h : Path.IsName name) :
    ∃ b more, textBytes name = b :: more ∧ slash ∉ b :: more := by
  have hslash : slash ∉ textBytes name := by
    apply List.count_eq_zero.mp
    rw [textBytes, count_slash_textBytes]
    exact List.count_eq_zero.mpr h.2.2.2
  cases hbytes : textBytes name with
  | nil =>
    -- a character has at least one byte, so only the empty text has none
    obtain ⟨c, rest, heq⟩ := List.exists_cons_of_ne_nil (Path.toList_ne_nil h.1)
    rw [textBytes, heq, List.flatMap_cons, List.append_eq_nil_iff] at hbytes
    exact absurd hbytes.1 (charBytes_ne_nil c)
  | cons b more => exact ⟨b, more, rfl, hbytes ▸ hslash⟩

theorem isTidy_append {front rest : Bytes} (h : slash ∉ front) :
    isTidy (front ++ rest) = isTidy rest := by
  induction front with
  | nil => rfl
  | cons b front ih =>
    have hb : b ≠ slash := fun heq => h (by simp [heq])
    have hfront : slash ∉ front := fun hmem => h (List.mem_cons_of_mem _ hmem)
    rw [List.cons_append, isTidy, ih hfront]
    simp [hb]

/-- The path of some names has a slash between any two of them, and each is followed by a name. -/
theorem count_slash_intercalate {names : List String} (h : ∀ name ∈ names, Path.IsName name)
    (hne : names ≠ []) :
    (textBytes ("/".intercalate names)).count slash + 1 = names.length
      ∧ isTidy (textBytes ("/".intercalate names)) = true := by
  induction names with
  | nil => exact absurd rfl hne
  | cons name names ih =>
    obtain ⟨hname, hnames⟩ := List.forall_mem_cons.mp h
    obtain ⟨b, more, hbytes, hslash⟩ := exists_textBytes hname
    have hcount : (textBytes name).count slash = 0 := by
      rw [hbytes]
      exact List.count_eq_zero.mpr hslash
    by_cases hrest : names = []
    · -- a single name has no slash
      subst hrest
      rw [String.intercalate_singleton, hcount]
      refine ⟨rfl, ?_⟩
      rw [hbytes, ← List.append_nil (b :: more), isTidy_append hslash]
      rfl
    · -- the slash behind the first name is one more, and the second name follows it
      obtain ⟨hlength, htidy⟩ := ih hnames hrest
      obtain ⟨second, others, rfl⟩ := List.exists_cons_of_ne_nil hrest
      rw [String.intercalate_cons_cons, textBytes_append, textBytes_append, textBytes_slash]
      constructor
      · rw [List.count_append, List.count_append, hcount]
        simp only [List.count_singleton_self, List.length_cons] at hlength ⊢
        omega
      · rw [List.append_assoc, hbytes, isTidy_append hslash, List.singleton_append, isTidy, htidy]
        obtain ⟨tail, htail⟩ := Path.exists_intercalate second others
        obtain ⟨b', more', hbytes', hslash'⟩ := exists_textBytes (hnames second (by simp))
        have hb' : b' ≠ slash := fun heq => hslash' (by simp [heq])
        rw [htail, textBytes_append, hbytes']
        simp [hb']

/-! ## §3 The bound -/

/-- A tidy path that tokens match does not end at a slash of theirs. -/
theorem owed_reverse_eq_zero {tokens : List Token} {path : Bytes} (htidy : isTidy path = true)
    (hstay : stayInName tokens = true) (hmatch : [] ∈ restsAll tokens [path]) :
    owed tokens.reverse = 0 := by
  cases hreverse : tokens.reverse with
  | nil => rfl
  | cons last back =>
    unfold owed
    rw [startsWithSlash_cons, if_neg]
    intro hlast
    have htokens : tokens = back.reverse ++ [last] := by
      rw [← List.reverse_reverse tokens, hreverse, List.reverse_cons]
    rw [htokens, stayInName_append, Bool.and_eq_true] at hstay
    rw [htokens] at hmatch
    obtain ⟨between, hbetween, hend⟩ := mem_restsAll_append.mp hmatch
    obtain ⟨hsuffix, -⟩ := count_slash_le htidy back.reverse hstay.1 hbetween
    -- the slash would be the last byte of the path
    obtain ⟨rest, hrest, hnil⟩ := mem_restsAll_cons.mp hend
    obtain rfl : [] = rest := by simpa using hnil
    cases last <;> simp [Token.isSlash] at hlast
    subst hlast
    rw [mem_rests_literal, charBytes_slash] at hrest
    have hbad := isTidy_of_suffix htidy hsuffix
    rw [hrest] at hbad
    cases hbad

/-- The empty pattern matches no path with a name in it. -/
theorem ne_empty_of_matchesPath {pattern : String} {tokens : List Token} {names : List String}
    (hparse : parse pattern = .ok tokens) (hnames : ∀ name ∈ names, Path.IsName name)
    (hne : names ≠ []) (hmatch : matchesPath tokens ("/".intercalate names) = true) :
    pattern ≠ "" := by
  rintro rfl
  obtain rfl : [] = tokens := Except.ok.inj hparse
  obtain ⟨name, others, rfl⟩ := List.exists_cons_of_ne_nil hne
  obtain ⟨more, hmore⟩ := Path.exists_intercalate name others
  obtain ⟨b, bytes, hbytes, -⟩ := exists_textBytes (hnames name (by simp))
  rcases matchesPath_iff.mp hmatch with heq | hmem
  · cases heq
  · rw [hmore, textBytes_append, hbytes] at hmem
    simp at hmem

/-- A path that tokens of a pattern match has no more names than the pattern, if the tokens stay in
names. -/
theorem length_le_of_parse {pattern : String} {tokens : List Token} {names : List String}
    (hparse : parse pattern = .ok tokens) (hrelative : Path.isAbsolute pattern = false)
    (hstay : stayInName tokens = true) (hnames : ∀ name ∈ names, Path.IsName name)
    (hne : names ≠ []) (hmatch : matchesPath tokens ("/".intercalate names) = true) :
    names.length ≤ (Path.plainNames pattern).length := by
  have hpattern := ne_empty_of_matchesPath hparse hnames hne hmatch
  have hend : [] ∈ restsAll tokens [textBytes ("/".intercalate names)] := by
    rcases matchesPath_iff.mp hmatch with rfl | hmem
    · cases hstay
    · exact hmem
  -- slashes of the path, of the tokens, of the lexemes and of the pattern, each bounded by the next
  obtain ⟨hcount, htidy⟩ := count_slash_intercalate hnames hne
  obtain ⟨-, hmatched⟩ := count_slash_le htidy tokens hstay hend
  have hread := settledRuns_le_of_readLexemes (Reading.heeds_of_not_startsWithSlash rfl) hparse
  have hlexemes := settling_lexemes_le false pattern.toList
  have hruns := slashRuns_le_settledRuns tokens.reverse
  rw [slashRuns_reverse, owed_reverse_eq_zero htidy hstay hend] at hruns
  have hstart : Reading.start.weight = 0 := rfl
  have hnone : (decide (Reading.start.previous? = some '/')) = false := rfl
  rw [hstart, hnone] at hread
  rw [length_plainNames_of_relative hpattern hrelative]
  simp only [List.count_nil] at hmatched
  omega

end UpdateFeed.Glob
