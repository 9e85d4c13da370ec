import UpdateFeed.Proofs.Glob.LiteralStart
import UpdateFeed.Path

/-!
# Plain patterns

A pattern without braces, brackets and backslashes has one lexeme for each character.  It can
always be read, and a stretch of two stars is read only where two stars are all that stands between
slashes.

- `exists_parse_of_isPlain`: a plain pattern can be read.
- `stayInName_of_parse`: without such a name its tokens take no slashes but those it spells out.
-/

namespace UpdateFeed.Glob

/-! ## §1 Lexemes -/

/-- Whether a character is a literal, a question mark or a star by itself. -/
def isPlain (c : Char) : Bool :=
  c ≠ '\x7b' && c ≠ '\x7d' && c ≠ '[' && c ≠ ']' && c ≠ '\\'

/-- The lexeme of a plain character. -/
def plainLexeme (c : Char) : Lexeme :=
  if c = '?' then .question else if c = '*' then .star else if c = ',' then .comma else .char c

theorem lexemes_of_isPlain {chars : List Char} (h : ∀ c ∈ chars, isPlain c = true) :
    lexemes chars = chars.map plainLexeme := by
  induction chars with
  | nil => rfl
  | cons c rest ih =>
    obtain ⟨hc, hrest⟩ := List.forall_mem_cons.mp h
    simp only [isPlain, Bool.and_eq_true, decide_eq_true_eq] at hc
    obtain ⟨⟨⟨⟨hopen, hclose⟩, hbracket⟩, -⟩, hbackslash⟩ := hc
    rw [List.map_cons, ← ih hrest, plainLexeme]
    -- a character that is none of the signs has itself as its lexeme
    split_ifs with hquestion hstar hcomma
    · subst hquestion
      rw [lexemes]
    · subst hstar
      rw [lexemes]
    · subst hcomma
      rw [lexemes]
    · have hsign : isSign c = false := by
        simp [isSign, hstar, hquestion, hbracket, hopen]
      exact lexemes_cons_char hsign hclose hcomma hbackslash rest

/-- Whether a lexeme stands by itself. -/
def Lexeme.isPlain : Lexeme → Bool
  | .char _ => true
  | .question => true
  | .star => true
  | .comma => true
  | _ => false

theorem all_isPlain_cons {lexeme : Lexeme} {rest : List Lexeme} :
    (lexeme :: rest).all Lexeme.isPlain = true ↔
      lexeme.isPlain = true ∧ rest.all Lexeme.isPlain = true := by
  rw [List.all_cons, Bool.and_eq_true]

theorem isPlain_plainLexeme (c : Char) : (plainLexeme c).isPlain = true := by
  unfold plainLexeme
  split_ifs <;> rfl

/-! ## §2 Reading -/

/-- Outside of groups, plain lexemes can always be read. -/
theorem exists_readLexemes_of_isPlain {reading : Reading} {lexemes : List Lexeme}
    (haround : reading.around = []) (h : lexemes.all Lexeme.isPlain = true) :
    ∃ tokens, readLexemes reading lexemes = .ok tokens := by
  fun_induction readLexemes reading lexemes
  case case1 reading => exact ⟨reading.tokens.reverse, by simp [Reading.finish, haround]⟩
  -- no plain lexeme opens or closes a group, so there is never one around
  case case2 ih | case3 ih | case4 ih | case5 ih | case6 ih | case7 ih | case8 ih | case9 ih
      | case10 ih | case17 ih =>
    simp only [all_isPlain_cons] at h
    apply ih haround
    simp only [h]
  case case15 reading rest ih =>
    apply ih
    · simp [Reading.comma, haround, Reading.push]
    · exact (all_isPlain_cons.mp h).2
  all_goals cases (all_isPlain_cons.mp h).1

/-- Whether two stars stand alone between slashes: in some lexemes at the start or behind a slash,
or in those behind their first slash. -/
def HasStretch (atStart : Bool) (lexemes : List Lexeme) : Prop :=
  [.star, .star] ∈
    if atStart then lexemes.splitOn (.char '/') else (lexemes.splitOn (.char '/')).tail

/-- What stands behind a lexeme stands behind a slash if the lexeme is one. -/
theorem HasStretch.of_cons {lexeme : Lexeme} {rest : List Lexeme} (atStart : Bool)
    (h : HasStretch (lexeme = .char '/') rest) : HasStretch atStart (lexeme :: rest) := by
  unfold HasStretch at h ⊢
  rw [List.splitOn_cons_eq_if_modifyHead]
  by_cases hslash : lexeme = .char '/'
  · subst hslash
    cases atStart <;> simpa using h
  · -- another lexeme only makes the first stretch longer, which does not count
    obtain ⟨first, others, hsplit⟩ :=
      List.exists_cons_of_ne_nil (List.splitOn_ne_nil (.char '/') rest)
    simp only [hslash, decide_false, Bool.false_eq_true, if_false, hsplit, List.tail_cons] at h
    cases atStart <;> simp [hslash, hsplit, h]

theorem hasStretch_slash (rest : List Lexeme) :
    HasStretch true (.star :: .star :: .char '/' :: rest) := by
  simp [HasStretch, List.splitOn_cons_eq_if_modifyHead]

theorem hasStretch_end : HasStretch true [.star, .star] := by
  simp [HasStretch, List.splitOn_cons_eq_if_modifyHead]

/-- Whether plain lexemes are read outside of groups, to tokens that stay in names, and have no two
stars alone before them. -/
structure IsQuiet (reading : Reading) (lexemes : List Lexeme) : Prop where
  around : reading.around = []
  plain : lexemes.all Lexeme.isPlain = true
  alone : ¬ HasStretch (reading.tokens.isEmpty || reading.previous? = some '/') lexemes
  stay : stayInName reading.tokens = true

/-- The token of one lexeme keeps a reading quiet. -/
theorem IsQuiet.push {reading : Reading} {lexeme : Lexeme} {rest : List Lexeme} {token : Token}
    {last : Char} (h : IsQuiet reading (lexeme :: rest)) (htoken : token.staysInName = true)
    (hlast : last = '/' ↔ lexeme = .char '/') : IsQuiet (reading.push token last) rest := by
  refine ⟨h.around, (all_isPlain_cons.mp h.plain).2, ?_, ?_⟩
  · intro hrest
    apply h.alone
    apply HasStretch.of_cons
    have hstart : ((reading.push token last).tokens.isEmpty
        || (reading.push token last).previous? = some '/') = decide (lexeme = .char '/') := by
      show (false || decide (some last = some '/')) = decide (lexeme = .char '/')
      rw [Bool.false_or, decide_eq_decide, Option.some.injEq]
      exact hlast
    rw [hstart] at hrest
    exact hrest
  · show (token.staysInName && stayInName reading.tokens) = true
    rw [htoken, h.stay]
    rfl

/-- Two stars that do not stand alone are two tokens of one name. -/
theorem IsQuiet.twoStars {reading : Reading} {rest : List Lexeme}
    (h : IsQuiet reading (.star :: .star :: rest)) : IsQuiet reading.twoStars rest := by
  have hlast : '*' = '/' ↔ Lexeme.star = .char '/' := by simp
  have hfirst : IsQuiet (reading.push .zeroOrMore '*') (.star :: rest) := h.push rfl hlast
  exact hfirst.push rfl hlast

/-- The tokens of plain lexemes stay in names when no two stars stand alone. -/
theorem stayInName_of_readLexemes {reading : Reading} {lexemes : List Lexeme} {tokens : List Token}
    (h : IsQuiet reading lexemes) (hread : readLexemes reading lexemes = .ok tokens) :
    stayInName tokens = true := by
  -- each lexeme keeps the reading quiet, or it is one of two stars that stand alone
  fun_induction readLexemes reading lexemes
  case case1 reading =>
    unfold Reading.finish at hread
    split_ifs at hread
    obtain rfl := Except.ok.inj hread
    rw [stayInName_reverse]
    exact h.stay
  case case2 reading rest hempty ih =>
    have halone := h.alone
    rw [hempty] at halone
    exact absurd (hasStretch_slash rest) halone
  case case3 reading rest hne hstart ih =>
    have halone := h.alone
    have hprevious : reading.previous? = some '/' := by
      simpa [Reading.atStretchStart, h.around] using hstart
    rw [hprevious] at halone
    exact absurd (hasStretch_slash rest) (by simpa using halone)
  case case4 reading rest hne hstart ih =>
    apply ih _ hread
    exact h.twoStars.push rfl (by simp)
  case case5 reading rest hslash hempty hend ih =>
    have halone := h.alone
    obtain rfl := List.isEmpty_iff.mp hend
    rw [hempty] at halone
    exact absurd hasStretch_end halone
  case case7 reading rest hslash hne hstart ih =>
    have halone := h.alone
    -- outside of groups, the stretch begins behind a slash and ends with the pattern
    simp only [Reading.atStretchStart, h.around, List.isEmpty_nil, Bool.not_true, Bool.false_and,
      Bool.or_false, Bool.and_eq_true, decide_eq_true_eq, List.isEmpty_iff] at hstart
    obtain ⟨hprevious, rfl⟩ := hstart
    rw [hprevious] at halone
    exact absurd hasStretch_end (by simpa using halone)
  case case6 ih | case8 ih => exact ih h.twoStars hread
  case case9 ih => exact ih (h.push rfl (by simp)) hread
  case case10 ih => exact ih (h.push rfl (by simp)) hread
  case case15 reading rest ih =>
    have hcomma : reading.comma = reading.push (.literal ',') ',' := by
      simp [Reading.comma, h.around]
    rw [hcomma] at ih hread
    exact ih (h.push rfl (by simp)) hread
  case case17 reading c rest ih => exact ih (h.push rfl (by simp)) hread
  all_goals cases (all_isPlain_cons.mp h.plain).1

/-! ## §3 Patterns -/

theorem splitOn_map_plainLexeme (chars : List Char) :
    (chars.map plainLexeme).splitOn (.char '/') = (chars.splitOn '/').map (·.map plainLexeme) := by
  induction chars with
  | nil => rfl
  | cons c rest ih =>
    obtain ⟨first, others, hsplit⟩ := List.exists_cons_of_ne_nil (List.splitOn_ne_nil '/' rest)
    rw [List.map_cons, List.splitOn_cons_eq_if_modifyHead, List.splitOn_cons_eq_if_modifyHead, ih,
      hsplit]
    by_cases hc : c = '/'
    · subst hc
      simp [plainLexeme]
    · have hlexeme : plainLexeme c ≠ .char '/' := by
        unfold plainLexeme
        split_ifs <;> simp [hc]
      simp [hc, hlexeme]

/-- A plain pattern can be read. -/
theorem exists_parse_of_isPlain {pattern : String} (h : ∀ c ∈ pattern.toList, isPlain c = true) :
    ∃ tokens, parse pattern = .ok tokens := by
  rw [parse, lexemes_of_isPlain h]
  apply exists_readLexemes_of_isPlain rfl
  simp [isPlain_plainLexeme]

/-- The tokens of a plain pattern stay in names when none of its names is two stars. -/
theorem stayInName_of_parse {pattern : String} {tokens : List Token}
    (h : ∀ c ∈ pattern.toList, isPlain c = true) (hstars : "**" ∉ Path.plainNames pattern)
    (hparse : parse pattern = .ok tokens) : stayInName tokens = true := by
  rw [parse, lexemes_of_isPlain h] at hparse
  have hplain : (pattern.toList.map plainLexeme).all Lexeme.isPlain = true := by
    simp [isPlain_plainLexeme]
  refine stayInName_of_readLexemes ⟨rfl, hplain, ?_, rfl⟩ hparse
  intro hstretch
  have hmem : [Lexeme.star, .star] ∈ (pattern.toList.map plainLexeme).splitOn (.char '/') :=
    hstretch
  rw [splitOn_map_plainLexeme] at hmem
  obtain ⟨segment, hsegment, hmap⟩ := List.mem_map.mp hmem
  -- only a star has a star as its lexeme
  have hone : ∀ {c : Char}, plainLexeme c = .star → c = '*' := by
    intro c hc
    unfold plainLexeme at hc
    split_ifs at hc with _ hstar
    exact hstar
  obtain ⟨first, others, rfl, hfirst, hothers⟩ := List.map_eq_cons_iff.mp hmap
  obtain ⟨second, none, rfl, hsecond, hnone⟩ := List.map_eq_cons_iff.mp hothers
  obtain rfl := List.map_eq_nil_iff.mp hnone
  obtain rfl := hone hfirst
  obtain rfl := hone hsecond
  apply hstars
  rw [Path.plainNames, List.mem_filter]
  exact ⟨List.mem_map.mpr ⟨_, hsegment, rfl⟩, by decide⟩

end UpdateFeed.Glob
