import UpdateFeed.Proofs.Glob.Plain
import UpdateFeed.Proofs.Glob.SlashBound

/-!
# Slashes and brackets

A pattern without braces, backslashes and two stars in a row has one token for each sign, character
and bracket.  Its question marks and stars match no slash.  A bracket matches one byte of those that
it lists, or one of the others if it is negated, and a slash is no exception.  So a matched path has
a slash for each one of the pattern, and may have one more for each bracket that admits it.

- `exists_spelled`, `readLexemes_of_spelled`: how such a pattern is read.
- `count_slash_of_spelled`, `exists_crossing_path`: the slashes of the matched paths.
- `slashes_of_matchesPath`: both, for the patterns themselves.
-/

namespace UpdateFeed.Glob

/-! ## §1 Patterns without groups -/

mutual

/-- The characters that are written in the brackets of a pattern, without the sign of negation. -/
def bracketed : List Char → List Char
  | [] => []
  | '[' :: '!' :: rest => bracketedFrom true rest
  | '[' :: '^' :: rest => bracketedFrom true rest
  | '[' :: rest => bracketedFrom true rest
  | _ :: rest => bracketed rest

/-- The same from within a bracket on.  `first` says that nothing of it is read. -/
def bracketedFrom (first : Bool) : List Char → List Char
  | [] => []
  | c :: rest =>
    if c = ']' ∧ !first then bracketed rest else c :: bracketedFrom false rest

end

/-- Whether a pattern has no two stars in a row, no braces, no backslashes, and no slash in a
bracket. -/
structure IsBare (pattern : String) : Prop where
  stars : ¬ ['*', '*'] <:+: pattern.toList
  signs : ∀ c ∈ pattern.toList, c ≠ '\x7b' ∧ c ≠ '\x7d' ∧ c ≠ '\\'
  brackets : '/' ∉ bracketed pattern.toList

/-- The token of a character outside of brackets. -/
def signToken (c : Char) : Token :=
  if c = '?' then .any else if c = '*' then .zeroOrMore else .literal c

/-- A pattern with its lexemes and its tokens, one for each sign and for each bracket. -/
inductive Spelled : List Char → List Lexeme → List Token → Prop
  | nil : Spelled [] [] []
  | sign {c : Char} {rest : List Char} {lexemes : List Lexeme} {tokens : List Token}
      (hc : c ≠ '[') (hrest : Spelled rest lexemes tokens) :
      Spelled (c :: rest) (plainLexeme c :: lexemes) (signToken c :: tokens)
  | bracket {written rest : List Char} {listed : CharClass} {lexemes : List Lexeme}
      {tokens : List Token} (hslash : '/' ∉ written)
      (hranges : ∀ range ∈ listed.ranges, range.1 ≤ range.2)
      (hrest : Spelled rest lexemes tokens) :
      Spelled ('[' :: (written ++ ']' :: rest)) (.charClass listed :: lexemes)
        (.charClass listed :: tokens)

/-! ## §2 Lexemes -/

theorem lexemes_cons_sign {c : Char} (hbracket : c ≠ '[')
    (hc : c ≠ '\x7b' ∧ c ≠ '\x7d' ∧ c ≠ '\\') (rest : List Char) :
    lexemes (c :: rest) = plainLexeme c :: lexemes rest := by
  obtain ⟨hopen, hclose, hbackslash⟩ := hc
  unfold plainLexeme
  split_ifs with hquestion hstar hcomma
  · subst hquestion
    rw [lexemes]
  · subst hstar
    rw [lexemes]
  · subst hcomma
    rw [lexemes]
  · have hsign : isSign c = false := by
      simp [isSign, hstar, hquestion, hbracket, hopen]
    exact lexemes_cons_char hsign hclose hcomma hbackslash rest

theorem bracketed_cons {c : Char} (h : c ≠ '[') (rest : List Char) :
    bracketed (c :: rest) = bracketed rest := by
  rw [bracketed]
  · exact fun _ heq _ => h heq
  · exact fun _ heq _ => h heq
  · exact h

/-- A place where a pattern cannot be read is an end of the reading. -/
theorem broken_notMem_of_readLexemes {reading : Reading} {lexemes : List Lexeme}
    {tokens : List Token} (h : readLexemes reading lexemes = .ok tokens) (fault : Fault) :
    .broken fault ∉ lexemes := by
  fun_induction readLexemes reading lexemes
  case case1 => simp
  case case14 => cases h
  case case16 => cases h
  all_goals
    rename_i ih
    simpa using ih h

theorem ordered_extendRange {last : Char} {ranges extended : List (Char × Char)}
    (h : ∀ range ∈ ranges, range.1 ≤ range.2) (hextended : extendRange last ranges = .ok extended) :
    ∀ range ∈ extended, range.1 ≤ range.2 := by
  cases ranges with
  | nil =>
    obtain rfl := Except.ok.inj hextended
    simp
  | cons range ranges =>
    obtain ⟨hfirst, hothers⟩ := List.forall_mem_cons.mp h
    simp only [extendRange] at hextended
    split_ifs at hextended with hlast
    obtain rfl := Except.ok.inj hextended
    exact List.forall_mem_cons.mpr ⟨Char.not_lt.mp hlast, hothers⟩

/-- From within a bracket on, a pattern that can be read lists something up to the end of the
bracket, and goes on behind it. -/
theorem exists_close {negated first inRange : Bool} {ranges : List (Char × Char)}
    {chars : List Char} (hranges : ∀ range ∈ ranges, range.1 ≤ range.2)
    (hbroken : ∀ fault, .broken fault ∉ classLexemes negated ranges first inRange chars) :
    ∃ written rest listed, chars = written ++ ']' :: rest
      ∧ bracketedFrom first chars = written ++ bracketed rest
      ∧ (∀ range ∈ listed.ranges, range.1 ≤ range.2)
      ∧ classLexemes negated ranges first inRange chars = .charClass listed :: lexemes rest := by
  induction chars generalizing ranges first inRange with
  | nil => simp [classLexemes] at hbroken
  | cons c rest ih =>
    by_cases hend : c = ']' ∧ !first
    · refine ⟨[], rest, ⟨negated, (if inRange then ('-', '-') :: ranges else ranges).reverse⟩,
        ?_, ?_, ?_, ?_⟩
      · rw [hend.1, List.nil_append]
      · rw [bracketedFrom, if_pos hend, List.nil_append]
      · intro range hrange
        rw [List.mem_reverse] at hrange
        split_ifs at hrange
        · rcases List.mem_cons.mp hrange with rfl | hmem
          · exact Char.le_refl '-'
          · exact hranges range hmem
        · exact hranges range hrange
      · rw [classLexemes, if_pos hend]
    · have hwritten : bracketedFrom first (c :: rest) = c :: bracketedFrom false rest := by
        rw [bracketedFrom, if_neg hend]
      -- one character more is written, and what is read of it does not matter behind it
      suffices hnext : ∃ more next, (∀ range ∈ more, range.1 ≤ range.2)
          ∧ classLexemes negated ranges first inRange (c :: rest) =
            classLexemes negated more false next rest by
        obtain ⟨more, next, hmore, hlexemes⟩ := hnext
        rw [hlexemes] at hbroken ⊢
        obtain ⟨written, behind, listed, rfl, hbracketed, hordered, hclass⟩ := ih hmore hbroken
        refine ⟨c :: written, behind, listed, rfl, ?_, hordered, hclass⟩
        rw [hwritten, hbracketed, List.cons_append]
      rw [classLexemes, if_neg hend] at hbroken ⊢
      split_ifs at hbroken ⊢
      · exact ⟨ranges, true, hranges, rfl⟩
      · cases hextended : extendRange c ranges with
        | error fault => simp [hextended] at hbroken
        | ok extended => exact ⟨extended, false, ordered_extendRange hranges hextended, rfl⟩
      · refine ⟨(c, c) :: ranges, false, ?_, rfl⟩
        exact List.forall_mem_cons.mpr ⟨Char.le_refl c, hranges⟩

/-- A bracket may begin with a sign of negation, which is not one of the characters in it. -/
theorem exists_bracket (rest : List Char) :
    ∃ negated sign inner, rest = sign ++ inner ∧ '/' ∉ sign
      ∧ lexemes ('[' :: rest) = classLexemes negated [] true false inner
      ∧ bracketed ('[' :: rest) = bracketedFrom true inner := by
  by_cases hbang : ∃ inner, rest = '!' :: inner
  · obtain ⟨inner, rfl⟩ := hbang
    exact ⟨true, ['!'], inner, rfl, by simp, by rw [lexemes], by rw [bracketed]⟩
  · by_cases hcaret : ∃ inner, rest = '^' :: inner
    · obtain ⟨inner, rfl⟩ := hcaret
      exact ⟨true, ['^'], inner, rfl, by simp, by rw [lexemes], by rw [bracketed]⟩
    · refine ⟨false, [], rest, rfl, by simp, ?_, ?_⟩
      · rw [lexemes]
        · exact fun inner heq => hbang ⟨inner, heq⟩
        · exact fun inner heq => hcaret ⟨inner, heq⟩
      · rw [bracketed]
        · exact fun inner heq => hbang ⟨inner, heq⟩
        · exact fun inner heq => hcaret ⟨inner, heq⟩

/-- Without braces and backslashes, a pattern that can be read is spelled by its lexemes. -/
theorem exists_spelled {chars : List Char}
    (hsigns : ∀ c ∈ chars, c ≠ '\x7b' ∧ c ≠ '\x7d' ∧ c ≠ '\\')
    (hbroken : ∀ fault, .broken fault ∉ lexemes chars) (hslash : '/' ∉ bracketed chars) :
    ∃ tokens, Spelled chars (lexemes chars) tokens := by
  -- behind a bracket the pattern goes on, shorter by more than one character
  induction hlength : chars.length using Nat.strongRecOn generalizing chars with
  | ind length ih =>
  cases chars with
  | nil => exact ⟨[], .nil⟩
  | cons c rest =>
    subst hlength
    obtain ⟨hc, hrest⟩ := List.forall_mem_cons.mp hsigns
    by_cases hbracket : c = '['
    · subst hbracket
      obtain ⟨negated, sign, inner, rfl, hsign, hlexemes, hbracketed⟩ := exists_bracket rest
      rw [hlexemes] at hbroken ⊢
      rw [hbracketed] at hslash
      obtain ⟨written, behind, listed, rfl, hwritten, hordered, hclass⟩ :=
        exists_close (by simp) hbroken
      rw [hclass] at hbroken ⊢
      rw [hwritten, List.mem_append, not_or] at hslash
      have hshorter : behind.length < ('[' :: (sign ++ (written ++ ']' :: behind))).length := by
        simp
        omega
      have hothers : ∀ fault, .broken fault ∉ lexemes behind :=
        fun fault hmem => hbroken fault (List.mem_cons_of_mem _ hmem)
      obtain ⟨tokens, htokens⟩ :=
        ih behind.length hshorter (fun c hc => hrest c (by simp [hc])) hothers hslash.2 rfl
      refine ⟨.charClass listed :: tokens, ?_⟩
      rw [← List.append_assoc]
      exact htokens.bracket (by simp [hsign, hslash.1]) hordered
    · rw [lexemes_cons_sign hbracket hc] at hbroken ⊢
      rw [bracketed_cons hbracket] at hslash
      have hothers : ∀ fault, .broken fault ∉ lexemes rest :=
        fun fault hmem => hbroken fault (List.mem_cons_of_mem _ hmem)
      obtain ⟨tokens, htokens⟩ := ih rest.length (by simp) hrest hothers hslash rfl
      exact ⟨_, htokens.sign hbracket⟩

/-! ## §3 Tokens -/

theorem plainLexeme_eq_star {c : Char} (h : plainLexeme c = .star) : c = '*' := by
  unfold plainLexeme at h
  split_ifs at h with _ hstar
  exact hstar

/-- The token of a character is read from its lexeme, if no star follows a star. -/
theorem readLexemes_plainLexeme {reading : Reading} {c : Char} {lexemes : List Lexeme}
    (haround : reading.around = []) (h : c = '*' → lexemes.head? ≠ some .star) :
    ∃ last, readLexemes reading (plainLexeme c :: lexemes) =
      readLexemes (reading.push (signToken c) last) lexemes := by
  unfold plainLexeme signToken
  split_ifs with hquestion hstar hcomma
  · exact ⟨'?', by rw [readLexemes]⟩
  · refine ⟨'*', ?_⟩
    have hnext : ∀ rest, lexemes = .star :: rest → False := by
      rintro rest rfl
      exact h hstar rfl
    rw [readLexemes]
    · exact fun rest => hnext (.char '/' :: rest)
    · exact hnext
  · subst hcomma
    exact ⟨',', by rw [readLexemes, Reading.comma, haround]; rfl⟩
  · exact ⟨c, by rw [readLexemes]⟩

/-- Outside of groups the lexemes of a pattern are read to its tokens, if it has no two stars in a
row. -/
theorem readLexemes_of_spelled {reading : Reading} {chars : List Char} {lexemes : List Lexeme}
    {tokens : List Token} (h : Spelled chars lexemes tokens) (haround : reading.around = [])
    (hstars : ¬ ['*', '*'] <:+: chars) :
    readLexemes reading lexemes = .ok (reading.tokens.reverse ++ tokens) := by
  induction h generalizing reading with
  | nil => simp [readLexemes, Reading.finish, haround]
  | @sign c rest lexemes tokens hc hrest ih =>
    have hnext : c = '*' → lexemes.head? ≠ some .star := by
      rintro rfl hhead
      -- a star is the lexeme of nothing but a star
      cases hrest with
      | nil => cases hhead
      | sign =>
        obtain rfl := plainLexeme_eq_star (Option.some.inj hhead)
        exact hstars ⟨[], _, rfl⟩
      | bracket => cases hhead
    have hothers : ¬ ['*', '*'] <:+: rest := fun hpair => hstars (List.infix_cons hpair)
    obtain ⟨last, hread⟩ := readLexemes_plainLexeme haround hnext
    have hpush : (reading.push (signToken c) last).around = [] := haround
    rw [hread, ih hpush hothers]
    simp [Reading.push]
  | @bracket written rest listed lexemes tokens hslash hranges hrest ih =>
    have hothers : ¬ ['*', '*'] <:+: rest := by
      intro hpair
      have hsuffix : rest <:+ '[' :: (written ++ ']' :: rest) :=
        ⟨'[' :: (written ++ [']']), by simp⟩
      exact hstars (hpair.trans hsuffix.isInfix)
    have hpush : (reading.push (.charClass listed) ']').around = [] := haround
    rw [readLexemes, ih hpush hothers]
    simp [Reading.push]

/-- How a bare pattern that can be read is spelled. -/
theorem spelled_of_parse {pattern : String} {tokens : List Token} (hbare : IsBare pattern)
    (hparse : parse pattern = .ok tokens) :
    Spelled pattern.toList (lexemes pattern.toList) tokens := by
  have hbroken := broken_notMem_of_readLexemes hparse
  obtain ⟨spelled, hspelled⟩ := exists_spelled hbare.signs hbroken hbare.brackets
  have hread := @readLexemes_of_spelled Reading.start _ _ _ hspelled rfl hbare.stars
  obtain rfl : spelled = tokens := by
    rw [parse, hread] at hparse
    exact Except.ok.inj hparse
  exact hspelled

theorem ne_leadingDirectories_of_spelled {chars : List Char} {lexemes : List Lexeme}
    {tokens : List Token} (h : Spelled chars lexemes tokens) :
    tokens ≠ [.leadingDirectories] := by
  cases h with
  | nil => simp
  | @sign c =>
    unfold signToken
    split_ifs <;> simp
  | bracket => simp

/-! ## §4 Slashes -/

/-- How many brackets of some tokens admit a slash. -/
def crossings : List Token → Nat
  | [] => 0
  | .charClass listed :: tokens => (listed.admits slash).toNat + crossings tokens
  | _ :: tokens => crossings tokens

theorem crossings_signToken (c : Char) (tokens : List Token) :
    crossings (signToken c :: tokens) = crossings tokens := by
  unfold signToken
  split_ifs <;> rfl

theorem count_slash_cons (c : Char) (chars : List Char) :
    (c :: chars).count '/' = [c].count '/' + chars.count '/' := by
  rw [← List.count_append, List.singleton_append]

/-- A bracket without a slash in it does not count among the slashes of its pattern. -/
theorem count_slash_bracket {written : List Char} (h : '/' ∉ written) (rest : List Char) :
    ('[' :: (written ++ ']' :: rest)).count '/' = rest.count '/' := by
  simp [List.count_eq_zero.mpr h]

/-- A character outside of brackets matches as many slashes as it is. -/
theorem count_slash_signToken {c : Char} {bytes rest : Bytes}
    (h : rest ∈ (signToken c).rests bytes) :
    bytes.count slash = [c].count '/' + rest.count slash := by
  unfold signToken at h
  split_ifs at h with hquestion hstar
  · subst hquestion
    rw [Token.rests] at h
    obtain ⟨b, rfl, hb⟩ := mem_oneByte.mp h
    have hne : b ≠ slash := by simpa using hb
    simp [List.count_cons_of_ne hne]
  · subst hstar
    rw [Token.rests] at h
    obtain ⟨front, rfl, hfront⟩ := mem_endsInName h
    simp [List.count_append, List.count_eq_zero.mpr hfront]
  · obtain rfl := mem_rests_literal.mp h
    rw [List.count_append, count_slash_charBytes, List.count_singleton]
    simp

/-- The bytes that are matched have the slashes of the pattern, and besides them at most one for
each bracket that admits it. -/
theorem count_slash_of_spelled {chars : List Char} {lexemes : List Lexeme} {tokens : List Token}
    {start rest : Bytes} (h : Spelled chars lexemes tokens)
    (hrest : rest ∈ restsAll tokens [start]) :
    chars.count '/' + rest.count slash ≤ start.count slash
      ∧ start.count slash ≤ chars.count '/' + crossings tokens + rest.count slash := by
  induction h generalizing start with
  | nil =>
    obtain rfl : rest = start := by simpa using hrest
    simp [crossings]
  | @sign c chars lexemes tokens hc htokens ih =>
    obtain ⟨between, hbetween, hbehind⟩ := mem_restsAll_cons.mp hrest
    have hfirst := count_slash_signToken hbetween
    obtain ⟨hlower, hupper⟩ := ih hbehind
    rw [crossings_signToken, count_slash_cons]
    omega
  | @bracket written chars listed lexemes tokens hslash hranges htokens ih =>
    obtain ⟨between, hbetween, hbehind⟩ := mem_restsAll_cons.mp hrest
    rw [Token.rests] at hbetween
    obtain ⟨b, rfl, hb⟩ := mem_oneByte.mp hbetween
    obtain ⟨hlower, hupper⟩ := ih hbehind
    -- the one byte that is taken may be a slash, if the bracket admits it
    rw [count_slash_bracket hslash, crossings]
    by_cases hne : b = slash
    · subst hne
      rw [List.count_cons_self, hb, Bool.toNat_true]
      omega
    · rw [List.count_cons_of_ne hne]
      omega

/-- Whether a bracket matches some character of one byte. -/
def CharClass.MatchesChar (listed : CharClass) : Prop :=
  ∃ c b, charBytes c = [b] ∧ listed.admits b = true

/-- A character outside of brackets matches some text with as many slashes as it is. -/
theorem exists_signToken (c : Char) :
    ∃ front : List Char, front.count '/' = [c].count '/'
      ∧ ∀ bytes, bytes ∈ (signToken c).rests (front.flatMap charBytes ++ bytes) := by
  unfold signToken
  split_ifs with hquestion hstar
  · subst hquestion
    refine ⟨['x'], by decide, fun bytes => ?_⟩
    rw [Token.rests]
    exact mem_oneByte.mpr ⟨0x78, rfl, by decide⟩
  · subst hstar
    refine ⟨[], by decide, fun bytes => ?_⟩
    cases bytes <;> simp [Token.rests, endsInName]
  · exact ⟨[c], rfl, fun bytes => mem_rests_literal.mpr (by simp)⟩

/-- A bracket that admits a slash can be made to match one. -/
theorem exists_charClass {listed : CharClass} (h : listed.MatchesChar) :
    ∃ c, [c].count '/' = (listed.admits slash).toNat
      ∧ ∀ bytes, bytes ∈ (Token.charClass listed).rests (charBytes c ++ bytes) := by
  simp only [Token.rests]
  cases hslash : listed.admits slash with
  | true =>
    refine ⟨'/', by decide, fun bytes => ?_⟩
    rw [charBytes_slash]
    exact mem_oneByte.mpr ⟨slash, rfl, hslash⟩
  | false =>
    obtain ⟨c, b, hbytes, hb⟩ := h
    refine ⟨c, ?_, fun bytes => ?_⟩
    · -- the character is no slash, since the bracket admits its byte
      have hne : c ≠ '/' := by
        rintro rfl
        obtain rfl : slash = b := by simpa [charBytes_slash] using hbytes
        rw [hslash] at hb
        cases hb
      simp [hne]
    · rw [hbytes]
      exact mem_oneByte.mpr ⟨b, rfl, hb⟩

/-- Some text is matched with a slash for each one of the pattern and for each bracket that admits
it. -/
theorem exists_crossing_path {chars : List Char} {lexemes : List Lexeme} {tokens : List Token}
    (h : Spelled chars lexemes tokens)
    (hclasses : ∀ listed, .charClass listed ∈ tokens → listed.MatchesChar) :
    ∃ path : List Char, [] ∈ restsAll tokens [path.flatMap charBytes]
      ∧ path.count '/' = chars.count '/' + crossings tokens := by
  induction h with
  | nil => exact ⟨[], by simp, rfl⟩
  | @sign c chars lexemes tokens hc htokens ih =>
    obtain ⟨path, hpath, hcount⟩ := ih fun listed hmem => hclasses listed (by simp [hmem])
    obtain ⟨front, hfront, hrests⟩ := exists_signToken c
    refine ⟨front ++ path, ?_, ?_⟩
    · rw [List.flatMap_append]
      exact mem_restsAll_cons.mpr ⟨_, hrests _, hpath⟩
    · rw [crossings_signToken, List.count_append, hfront, hcount, count_slash_cons c chars]
      omega
  -- a class that takes a slash is given one, any other a character of its own
  | @bracket written chars listed lexemes tokens hslash hranges htokens ih =>
    obtain ⟨path, hpath, hcount⟩ := ih fun other hmem => hclasses other (by simp [hmem])
    obtain ⟨c, hc, hrests⟩ := exists_charClass (hclasses listed (by simp))
    refine ⟨c :: path, ?_, ?_⟩
    · rw [List.flatMap_cons]
      exact mem_restsAll_cons.mpr ⟨_, hrests _, hpath⟩
    · rw [count_slash_bracket hslash, crossings, count_slash_cons, hc, hcount]
      omega

/-! ## §5 Brackets that admit a slash -/

/-- A character below 128 is its own byte, and the bytes of another one are not below 128. -/
theorem charBytes_cases (c : Char) :
    (∃ b, charBytes c = [b] ∧ b.toNat = c.toNat)
      ∨ 128 ≤ c.toNat ∧ ∀ b ∈ charBytes c, 128 ≤ b.toNat := by
  have hcode : c.toNat = c.val.toNat := rfl
  unfold charBytes String.utf8EncodeChar
  dsimp only
  split_ifs with hone
  · refine .inl ⟨_, rfl, ?_⟩
    rw [UInt8.toNat_ofNat']
    omega
  all_goals
    refine .inr ⟨by omega, ?_⟩
    simp only [List.forall_mem_cons, UInt8.toNat_ofNat', List.not_mem_nil, false_imp_iff,
      implies_true, and_true]
    omega

theorem char_le_iff {c d : Char} : c ≤ d ↔ c.toNat ≤ d.toNat := Iff.rfl

theorem contains_slash_iff {c : Char} : (charBytes c).contains slash = true ↔ c.toNat = 47 := by
  rw [List.contains_iff_mem]
  constructor
  · intro hmem
    by_contra hne
    apply slash_notMem_charBytes _ hmem
    rintro rfl
    exact hne rfl
  · intro hcode
    obtain rfl : c = '/' := Char.toNat_inj.mp hcode
    simp [charBytes_slash]

theorem last_le_slash_iff {c : Char} :
    (charBytes c).getLast?.all (· ≤ slash) = true ↔ c.toNat ≤ 47 := by
  have hslash : slash.toNat = 47 := rfl
  rcases charBytes_cases c with ⟨b, hbytes, hb⟩ | ⟨hcode, hbytes⟩
  · simp [hbytes, UInt8.le_iff_toNat_le, hslash, hb]
  · obtain ⟨b, hlast⟩ := Option.ne_none_iff_exists'.mp
      (mt List.getLast?_eq_none_iff.mp (charBytes_ne_nil c))
    have hb := hbytes b (List.mem_of_getLast? hlast)
    simp only [hlast, Option.all_some, decide_eq_true_eq, UInt8.le_iff_toNat_le, hslash]
    omega

theorem slash_le_head_iff {c : Char} :
    (charBytes c).head?.all (slash ≤ ·) = true ↔ 47 ≤ c.toNat := by
  have hslash : slash.toNat = 47 := rfl
  rcases charBytes_cases c with ⟨b, hbytes, hb⟩ | ⟨hcode, hbytes⟩
  · simp [hbytes, UInt8.le_iff_toNat_le, hslash, hb]
  · obtain ⟨b, rest, hcons⟩ := List.exists_cons_of_ne_nil (charBytes_ne_nil c)
    have hb := hbytes b (by simp [hcons])
    simp only [hcons, List.head?_cons, Option.all_some, decide_eq_true_eq, UInt8.le_iff_toNat_le,
      hslash]
    omega

/-- A range lists a slash if it is one of its ends or stands between them. -/
theorem rangeLists_slash_iff {range : Char × Char} (h : range.1 ≤ range.2) :
    rangeLists range slash = true ↔ range.1 ≤ '/' ∧ '/' ≤ range.2 := by
  have hslash : ('/' : Char).toNat = 47 := rfl
  rw [char_le_iff] at h
  rw [char_le_iff, char_le_iff, hslash, rangeLists]
  split_ifs with heq
  · rw [contains_slash_iff, heq]
    omega
  · simp only [Bool.or_eq_true, Bool.and_eq_true, contains_slash_iff, last_le_slash_iff,
      slash_le_head_iff]
    omega

/-- A bracket admits a slash if it lists one, or if it is negated and does not. -/
theorem admits_slash_iff {listed : CharClass} (h : ∀ range ∈ listed.ranges, range.1 ≤ range.2) :
    listed.admits slash = true ↔
      (listed.negated = true ↔
        ∀ range ∈ listed.ranges, ¬ (range.1 ≤ '/' ∧ '/' ≤ range.2)) := by
  have hany : listed.ranges.any (rangeLists · slash) = true ↔
      ∃ range ∈ listed.ranges, range.1 ≤ '/' ∧ '/' ≤ range.2 := by
    rw [List.any_eq_true]
    apply exists_congr
    intro range
    exact and_congr_right fun hmem => rangeLists_slash_iff (h range hmem)
  have hnone : (∀ range ∈ listed.ranges, ¬ (range.1 ≤ '/' ∧ '/' ≤ range.2)) ↔
      ¬ listed.ranges.any (rangeLists · slash) = true := by
    rw [hany]
    simp only [not_exists, not_and]
  rw [hnone, CharClass.admits]
  cases listed.negated <;> cases listed.ranges.any (rangeLists · slash) <;> simp

theorem ordered_of_spelled {chars : List Char} {lexemes : List Lexeme} {tokens : List Token}
    {listed : CharClass} (h : Spelled chars lexemes tokens)
    (hmem : .charClass listed ∈ tokens) : ∀ range ∈ listed.ranges, range.1 ≤ range.2 := by
  induction h with
  | nil => cases hmem
  | @sign c chars lexemes tokens hc htokens ih =>
    apply ih
    apply (List.mem_cons.mp hmem).resolve_left
    unfold signToken
    split_ifs <;> simp
  | @bracket written chars other lexemes tokens hslash hranges htokens ih =>
    rcases List.mem_cons.mp hmem with heq | hmem
    · obtain rfl := Token.charClass.inj heq
      exact hranges
    · exact ih hmem

/-! ## §6 Paths -/

theorem crossings_eq_zero {tokens : List Token}
    (h : ∀ listed, .charClass listed ∈ tokens → listed.admits slash = false) :
    crossings tokens = 0 := by
  induction tokens with
  | nil => rfl
  | cons token tokens ih =>
    have hothers := ih fun listed hmem => h listed (List.mem_cons_of_mem _ hmem)
    cases token with
    | charClass listed => simp [crossings, h listed, hothers]
    | _ => exact hothers

/-- A path that a bare pattern matches has a slash for each one of the pattern, and none besides if
no bracket admits a slash.  Otherwise it may have one more for each bracket that does; and which
brackets do is a matter of what they list. -/
theorem slashes_of_matchesPath {pattern : String} {tokens : List Token} (hbare : IsBare pattern)
    (hparse : parse pattern = .ok tokens) :
    ((∀ listed, .charClass listed ∈ tokens → listed.admits slash = false) →
        ∀ path, matchesPath tokens path = true →
          path.toList.count '/' = pattern.toList.count '/')
      ∧ (∀ path, matchesPath tokens path = true →
        pattern.toList.count '/' ≤ path.toList.count '/'
          ∧ path.toList.count '/' ≤ pattern.toList.count '/' + crossings tokens)
      ∧ ((∀ listed, .charClass listed ∈ tokens → listed.MatchesChar) →
        ∃ path, matchesPath tokens path = true
          ∧ path.toList.count '/' = pattern.toList.count '/' + crossings tokens)
      ∧ ∀ listed, .charClass listed ∈ tokens →
        (listed.admits slash = true ↔
          (listed.negated = true ↔
            ∀ range ∈ listed.ranges, ¬ (range.1 ≤ '/' ∧ '/' ≤ range.2))) := by
  have hspelled := spelled_of_parse hbare hparse
  have hbounds : ∀ path, matchesPath tokens path = true →
      pattern.toList.count '/' ≤ path.toList.count '/'
        ∧ path.toList.count '/' ≤ pattern.toList.count '/' + crossings tokens := by
    intro path hmatch
    have hend : [] ∈ restsAll tokens [textBytes path] := by
      rcases matchesPath_iff.mp hmatch with rfl | hmem
      · -- directories of any number are no token of such a pattern
        exact absurd rfl (ne_leadingDirectories_of_spelled hspelled)
      · exact hmem
    have hcount := count_slash_of_spelled hspelled hend
    rw [textBytes_eq, count_slash_textBytes] at hcount
    simpa using hcount
  refine ⟨?_, hbounds, ?_, ?_⟩
  · intro hnone path hmatch
    obtain ⟨hlower, hupper⟩ := hbounds path hmatch
    rw [crossings_eq_zero hnone] at hupper
    omega
  · intro hclasses
    obtain ⟨path, hpath, hcount⟩ := exists_crossing_path hspelled hclasses
    refine ⟨String.ofList path, ?_, ?_⟩
    · rw [matchesPath_iff, textBytes_eq, String.toList_ofList]
      exact .inr hpath
    · rw [String.toList_ofList]
      exact hcount
  · intro listed hmem
    exact admits_slash_iff (ordered_of_spelled hspelled hmem)

/-- A negated bracket takes the slash between two names. -/
theorem slashes_of_matchesPath_crossing :
    IsBare "a[!b]x" ∧ ∃ tokens, parse "a[!b]x" = .ok tokens ∧ matchesPath tokens "a/x" = true
      ∧ "a/x".toList.count '/' = "a[!b]x".toList.count '/' + crossings tokens := by
  have hbare : IsBare "a[!b]x" := by
    constructor
    · intro hstars
      exact absurd (hstars.subset (List.mem_cons_self ..)) (by simp)
    · simp
    · simp [bracketed, bracketedFrom]
  have hparse : parse "a[!b]x" =
      .ok [.literal 'a', .charClass ⟨true, [('b', 'b')]⟩, .literal 'x'] := by
    simp [parse, lexemes, classLexemes, readLexemes, Reading.push, Reading.start, Reading.finish]
  obtain ⟨-, hbounds, -, -⟩ := slashes_of_matchesPath hbare hparse
  have hmatch : matchesPath [.literal 'a', .charClass ⟨true, [('b', 'b')]⟩, .literal 'x'] "a/x" =
      true := by decide +kernel
  refine ⟨hbare, _, hparse, hmatch, ?_⟩
  obtain ⟨-, hupper⟩ := hbounds "a/x" hmatch
  exact Nat.le_antisymm hupper (by decide +kernel)

end UpdateFeed.Glob
