import UpdateFeed.Proofs.Glob.SlashReading

/-!
# Literal starts of patterns

Up to the first sign of a glob a pattern stands for itself, apart from its backslashes.  A slash
behind such a start stays a slash of the tokens, or becomes a stretch of stars that begins with
one; so every path that the pattern matches begins with the start, without the backslashes, and a
slash.

- `unescaped`: what literal characters of a pattern stand for.
- `exists_append_of_matchesPath`: how a path begins that a pattern with a literal start matches.
-/

namespace UpdateFeed.Glob

/-! ## §1 Backslashes -/

/-- What characters without a sign of a glob stand for.  A backslash at the end stands for nothing
by itself. -/
def unescaped : List Char → List Char
  | [] => []
  | ['\\'] => []
  | '\\' :: c :: rest => c :: unescaped rest
  | c :: rest => c :: unescaped rest

theorem unescaped_cons {c : Char} (h : c ≠ '\\') (rest : List Char) :
    unescaped (c :: rest) = c :: unescaped rest := by
  rw [unescaped]
  · rintro rfl
    exact absurd rfl h
  · rintro _ _ rfl
    exact absurd rfl h

theorem ne_backslash {c : Char} {rest : List Char} (hend : c = '\\' → rest = [] → False)
    (hescape : ∀ d others, c = '\\' → rest = d :: others → False) : c ≠ '\\' := by
  rintro rfl
  cases rest with
  | nil => exact hend rfl rfl
  | cons d others => exact hescape d others rfl rfl

/-- Backslashes are taken away between slashes, also the one in front of a slash. -/
theorem splitOn_unescaped (chars : List Char) :
    (unescaped chars).splitOn '/' = (chars.splitOn '/').map unescaped := by
  fun_induction unescaped chars with
  | case1 => rfl
  | case2 => rfl
  | case3 c rest ih =>
    -- the backslash goes, and the character behind it may be the slash that ends a piece
    obtain ⟨first, others, hsplit⟩ := List.exists_cons_of_ne_nil (List.splitOn_ne_nil '/' rest)
    have hbackslash : ('\\' == '/') = false := by decide
    rw [List.splitOn_cons_eq_if_modifyHead, List.splitOn_cons_eq_if_modifyHead '\\',
      List.splitOn_cons_eq_if_modifyHead c rest, ih, hsplit, hbackslash]
    by_cases hc : c = '/'
    · subst hc
      simp [unescaped]
    · simp [unescaped, hc]
  | case4 c rest hend hescape ih =>
    have hc : c ≠ '\\' := ne_backslash hend hescape
    obtain ⟨first, others, hsplit⟩ := List.exists_cons_of_ne_nil (List.splitOn_ne_nil '/' rest)
    rw [List.splitOn_cons_eq_if_modifyHead, List.splitOn_cons_eq_if_modifyHead c rest, ih, hsplit]
    by_cases hslash : c = '/'
    · subst hslash
      simp [unescaped]
    · simp [unescaped_cons hc, hslash]

theorem length_unescaped_le (chars : List Char) : (unescaped chars).length ≤ chars.length := by
  fun_induction unescaped chars with
  | case1 => exact Nat.le_refl _
  | case2 => exact Nat.zero_le _
  | case3 c rest ih =>
    simp only [List.length_cons]
    omega
  | case4 c rest _ _ ih => exact Nat.succ_le_succ ih

/-- Nothing is taken away exactly when there is no backslash. -/
theorem unescaped_eq_self_iff {chars : List Char} : unescaped chars = chars ↔ '\\' ∉ chars := by
  fun_induction unescaped chars with
  | case1 => simp
  | case2 => simp
  | case3 c rest ih =>
    -- without its backslash the text is shorter, so it is another one
    have hshorter : (unescaped rest).length ≤ rest.length := length_unescaped_le rest
    constructor
    · intro heq
      have hlength := congrArg List.length heq
      simp only [List.length_cons] at hlength
      omega
    · intro h
      exact absurd (List.mem_cons_self ..) h
  | case4 c rest hend hescape ih =>
    have hc : c ≠ '\\' := ne_backslash hend hescape
    simp [ih, Ne.symm hc]

/-! ## §2 Reading -/

/-- Whether a character is a sign of a glob. -/
def isSign (c : Char) : Bool :=
  c = '*' || c = '?' || c = '[' || c = '\x7b'

theorem lexemes_cons_char {c : Char} (hsign : isSign c = false) (hbrace : c ≠ '\x7d')
    (hcomma : c ≠ ',') (hbackslash : c ≠ '\\') (rest : List Char) :
    lexemes (c :: rest) = .char c :: lexemes rest := by
  simp only [isSign, Bool.or_eq_false_iff, decide_eq_false_iff_not] at hsign
  obtain ⟨⟨⟨hstar, hquestion⟩, hbracket⟩, hopen⟩ := hsign
  rw [lexemes]
  · exact hquestion
  · exact hstar
  · exact hopen
  · exact hbrace
  · exact hcomma
  · exact fun _ heq _ => hbracket heq
  · exact fun _ heq _ => hbracket heq
  · exact hbracket
  · exact fun heq _ => hbackslash heq
  · exact fun _ _ heq _ => hbackslash heq

/-- Literal characters and the slash behind them are read as literals. -/
theorem exists_readLexemes_literals {front rest : List Char} {reading : Reading}
    {tokens : List Token} (haround : reading.around = []) (hfront : ∀ c ∈ front, isSign c = false)
    (h : readLexemes reading (lexemes (front ++ '/' :: rest)) = .ok tokens) :
    ∃ after, after.around = []
      ∧ after.tokens =
        .literal '/' :: ((unescaped front).reverse.map Token.literal ++ reading.tokens)
      ∧ readLexemes after (lexemes rest) = .ok tokens := by
  -- one lexeme for each character that the start stands for
  fun_induction unescaped front generalizing reading with
  | case1 =>
    refine ⟨reading.push (.literal '/') '/', haround, rfl, ?_⟩
    simpa [lexemes, readLexemes] using h
  | case2 =>
    -- a backslash at the end of the start takes the slash behind it for a literal
    refine ⟨reading.push (.literal '/') '/', haround, rfl, ?_⟩
    simpa [lexemes, readLexemes] using h
  | case3 c front ih =>
    have hothers : ∀ d ∈ front, isSign d = false := fun d hd => hfront d (by simp [hd])
    have hnext : readLexemes (reading.push (.literal c) c) (lexemes (front ++ '/' :: rest)) =
        .ok tokens := by
      simpa [lexemes, readLexemes] using h
    have hpush : (reading.push (.literal c) c).around = [] := haround
    obtain ⟨after, hafter, htokens, hrest⟩ := ih hpush hothers hnext
    refine ⟨after, hafter, ?_, hrest⟩
    rw [htokens]
    simp [Reading.push]
  | case4 c front hend hescape ih =>
    have hothers : ∀ d ∈ front, isSign d = false := fun d hd => hfront d (by simp [hd])
    have hc : c ≠ '\\' := ne_backslash hend hescape
    -- a comma outside of groups is a literal, and a brace there is never closed
    have hnext : readLexemes (reading.push (.literal c) c) (lexemes (front ++ '/' :: rest)) =
        .ok tokens := by
      by_cases hbrace : c = '\x7d'
      · subst hbrace
        simp [lexemes, readLexemes, Reading.closeGroup, haround] at h
      · by_cases hcomma : c = ','
        · subst hcomma
          simpa [lexemes, readLexemes, Reading.comma, haround] using h
        · rw [List.cons_append, lexemes_cons_char (hfront c (by simp)) hbrace hcomma hc,
            readLexemes] at h
          exact h
    have hpush : (reading.push (.literal c) c).around = [] := haround
    obtain ⟨after, hafter, htokens, hrest⟩ := ih hpush hothers hnext
    refine ⟨after, hafter, ?_, hrest⟩
    rw [htokens]
    simp [Reading.push]

/-! ## §3 The rest of a pattern -/

namespace Token

/-- Whether a token begins with a slash wherever it matches. -/
def takesSlash : Token → Bool
  | .literal c => c = '/'
  | .everythingBelow => true
  | .innerDirectories => true
  | _ => false

theorem exists_of_takesSlash {token : Token} (h : token.takesSlash = true) {bytes rest : Bytes}
    (hrest : rest ∈ token.rests bytes) : ∃ more, bytes = slash :: more := by
  cases token <;> simp [takesSlash] at h
  case literal c =>
    subst h
    rw [mem_rests_literal, charBytes_slash] at hrest
    exact ⟨rest, hrest⟩
  case everythingBelow | innerDirectories =>
    cases bytes with
    | nil => simp [rests] at hrest
    | cons b bytes =>
      rw [rests] at hrest
      split_ifs at hrest with hb
      · exact ⟨bytes, by rw [hb]⟩
      · cases hrest

end Token

namespace Reading

/-- The tokens outside of all groups, listed backwards. -/
def outermost (reading : Reading) : List Token :=
  (reading.around.getLast?.map Enclosing.tokens).getD reading.tokens

/-- Whether some tokens stand at the start outside of all groups, and one behind them that begins
with a slash. -/
def Keeps (bottom : List Token) (reading : Reading) : Prop :=
  ∃ front token, reading.outermost = front ++ token :: bottom ∧ token.takesSlash = true

variable {bottom : List Token} {reading : Reading}

theorem Keeps.of_outermost_eq {after : Reading} (h : reading.Keeps bottom)
    (heq : after.outermost = reading.outermost) : after.Keeps bottom := by
  obtain ⟨front, token, houtermost, hslash⟩ := h
  exact ⟨front, token, heq.trans houtermost, hslash⟩

theorem Keeps.of_outermost_cons {after : Reading} {last : Token} (h : reading.Keeps bottom)
    (heq : after.outermost = last :: reading.outermost) : after.Keeps bottom := by
  obtain ⟨front, token, houtermost, hslash⟩ := h
  refine ⟨last :: front, token, ?_, hslash⟩
  rw [heq, houtermost, List.cons_append]

theorem outermost_of_around_nil (h : reading.around = []) :
    reading.outermost = reading.tokens := by
  rw [outermost, h]
  rfl

theorem outermost_of_around_cons {outer : Enclosing} {around : List Enclosing}
    (h : reading.around = outer :: around) :
    reading.outermost = ((outer :: around).getLast (by simp)).tokens := by
  rw [outermost, h, List.getLast?_eq_some_getLast (by simp)]
  rfl

/-- Inside of a group, what is outside of all groups does not depend on the innermost branch. -/
theorem outermost_congr {after : Reading} {outer : Enclosing} {around : List Enclosing}
    (h : reading.around = outer :: around) (hafter : after.around = reading.around) :
    after.outermost = reading.outermost := by
  rw [outermost_of_around_cons h, outermost_of_around_cons (hafter.trans h)]

theorem Keeps.push (h : reading.Keeps bottom) (token : Token) (last : Char) :
    (reading.push token last).Keeps bottom := by
  cases haround : reading.around with
  | nil =>
    apply h.of_outermost_cons
    rw [outermost_of_around_nil haround]
    exact outermost_of_around_nil haround
  | cons outer around =>
    apply h.of_outermost_eq
    exact outermost_congr haround rfl

theorem Keeps.twoStars (h : reading.Keeps bottom) : reading.twoStars.Keeps bottom := by
  have hfirst := h.push .zeroOrMore '*'
  exact hfirst.push .zeroOrMore '*'

theorem Keeps.openGroup (h : reading.Keeps bottom) : reading.openGroup.Keeps bottom := by
  have houter : reading.openGroup.around = ⟨reading.tokens, reading.branches⟩ :: reading.around :=
    rfl
  apply h.of_outermost_eq
  rw [outermost_of_around_cons houter]
  -- the first group puts the tokens around it; a further one leaves the outermost where they are
  cases haround : reading.around with
  | nil => exact (outermost_of_around_nil haround).symm
  | cons outer around =>
    rw [outermost_of_around_cons haround, List.getLast_cons (by simp)]

theorem Keeps.comma (h : reading.Keeps bottom) : reading.comma.Keeps bottom := by
  unfold Reading.comma
  split_ifs with hempty
  · exact h.push _ _
  · cases haround : reading.around with
    | nil => simp [haround] at hempty
    | cons outer around =>
      apply h.of_outermost_eq
      exact outermost_congr haround haround.symm

theorem Keeps.closeGroup {closed : Reading} (h : reading.Keeps bottom)
    (hclosed : reading.closeGroup = .ok closed) : closed.Keeps bottom := by
  unfold Reading.closeGroup at hclosed
  split at hclosed
  · cases hclosed
  · rename_i outer around haround
    obtain rfl := Except.ok.inj hclosed
    -- the group becomes a token outside of all groups if it was the only one
    cases around with
    | nil =>
      apply h.of_outermost_cons
      rw [outermost_of_around_cons haround]
      exact outermost_of_around_nil rfl
    | cons next around =>
      apply h.of_outermost_eq
      rw [outermost_of_around_cons haround, List.getLast_cons (by simp)]
      exact outermost_of_around_cons rfl

/-- A stretch of stars takes the place of the last token, or leaves it there. -/
theorem starStretch_tokens {first : Token} {tokens : List Token}
    (h : reading.tokens = first :: tokens) (token : Token) (last : Char) :
    ∃ placed, (reading.starStretch token last).tokens = placed :: tokens
      ∧ (placed = first ∨ placed = token) := by
  unfold Reading.starStretch
  dsimp only
  -- each way to end the stretch pops the newest token and puts one in its place
  split
  · rename_i heq
    obtain ⟨rfl, rfl⟩ := List.cons.inj (h.symm.trans heq)
    exact ⟨_, rfl, .inl rfl⟩
  · rename_i heq
    obtain ⟨rfl, rfl⟩ := List.cons.inj (h.symm.trans heq)
    exact ⟨_, rfl, .inl rfl⟩
  · rename_i heq
    obtain ⟨rfl, rfl⟩ := List.cons.inj (h.symm.trans heq)
    exact ⟨_, rfl, .inr rfl⟩
  · rename_i heq
    rw [h] at heq
    cases heq

/-- A stretch of stars that takes the place of a slash begins with one. -/
theorem Keeps.starStretch (h : reading.Keeps bottom) {token : Token}
    (htoken : token.takesSlash = true) (last : Char) :
    (reading.starStretch token last).Keeps bottom := by
  cases haround : reading.around with
  | cons outer around =>
    apply h.of_outermost_eq
    exact outermost_congr haround rfl
  | nil =>
    obtain ⟨front, kept, houtermost, hslash⟩ := h
    rw [outermost_of_around_nil haround] at houtermost
    have hafter : (reading.starStretch token last).around = [] := haround
    unfold Keeps
    rw [outermost_of_around_nil hafter]
    -- the last token is the kept one, or one pushed behind it
    cases front with
    | nil =>
      obtain ⟨placed, htokens, hplaced⟩ := starStretch_tokens houtermost token last
      refine ⟨[], placed, htokens, ?_⟩
      rcases hplaced with rfl | rfl
      · exact hslash
      · exact htoken
    | cons first front =>
      obtain ⟨placed, htokens, -⟩ := starStretch_tokens houtermost token last
      exact ⟨placed :: front, kept, htokens, hslash⟩

end Reading

/-- Reading on leaves what stands at the start, and a slash behind it. -/
theorem exists_of_readLexemes {bottom : List Token} {reading : Reading} {lexemes : List Lexeme}
    {tokens : List Token} (hkeeps : reading.Keeps bottom)
    (h : readLexemes reading lexemes = .ok tokens) :
    ∃ token more, tokens = bottom.reverse ++ token :: more ∧ token.takesSlash = true := by
  -- `Keeps` is the invariant of the steps; at the end no group is open
  fun_induction readLexemes reading lexemes with
  | case1 reading =>
    unfold Reading.finish at h
    split_ifs at h with hempty
    obtain rfl := Except.ok.inj h
    obtain ⟨front, token, houtermost, hslash⟩ := hkeeps
    rw [Reading.outermost_of_around_nil (List.isEmpty_iff.mp hempty)] at houtermost
    refine ⟨token, front.reverse, ?_, hslash⟩
    rw [houtermost]
    simp
  | case2 reading rest hempty ih => exact ih (hkeeps.push _ _) h
  | case3 reading rest hne hstart ih => exact ih (hkeeps.starStretch rfl _) h
  | case4 reading rest hne hstart ih => exact ih (hkeeps.twoStars.push _ _) h
  | case5 reading rest hslash hempty hend ih => exact ih (hkeeps.push _ _) h
  | case6 reading rest hslash hempty hend ih => exact ih hkeeps.twoStars h
  | case7 reading rest hslash hne hstretch ih => exact ih (hkeeps.starStretch rfl _) h
  | case8 reading rest hslash hne hstretch ih => exact ih hkeeps.twoStars h
  | case9 reading rest _ _ ih => exact ih (hkeeps.push _ _) h
  | case10 reading rest ih => exact ih (hkeeps.push _ _) h
  | case11 reading listed rest ih => exact ih (hkeeps.push _ _) h
  | case12 reading rest ih => exact ih hkeeps.openGroup h
  | case13 reading rest closed hclosed ih => exact ih (hkeeps.closeGroup hclosed) h
  | case14 => cases h
  | case15 reading rest ih => exact ih hkeeps.comma h
  | case16 => cases h
  | case17 reading c rest ih => exact ih (hkeeps.push _ _) h
  | case18 reading c rest ih => exact ih (hkeeps.push _ _) h

/-! ## §4 Paths -/

/-- A pattern with a literal start has the start as its first tokens, and a slash behind them. -/
theorem exists_of_parse {pattern : String} {front rest : List Char} {tokens : List Token}
    (hpattern : pattern.toList = front ++ '/' :: rest) (hfront : ∀ c ∈ front, isSign c = false)
    (h : parse pattern = .ok tokens) :
    ∃ token more, tokens = (unescaped front).map Token.literal ++ token :: more
      ∧ token.takesSlash = true := by
  have hnone : Reading.start.around = [] := rfl
  rw [parse, hpattern] at h
  obtain ⟨after, haround, htokens, hread⟩ := exists_readLexemes_literals hnone hfront h
  have hbottom : after.Keeps ((unescaped front).reverse.map Token.literal) := by
    refine ⟨[], .literal '/', ?_, rfl⟩
    rw [Reading.outermost_of_around_nil haround, htokens]
    simp [Reading.start]
  obtain ⟨token, more, rfl, hslash⟩ := exists_of_readLexemes hbottom hread
  refine ⟨token, more, ?_, hslash⟩
  rw [List.map_reverse, List.reverse_reverse]

/-- A path that a pattern with a literal start matches begins with what the start stands for. -/
theorem exists_append_of_matchesPath {pattern path : String} {front rest : List Char}
    {tokens : List Token} (hpattern : pattern.toList = front ++ '/' :: rest)
    (hfront : ∀ c ∈ front, isSign c = false) (hparse : parse pattern = .ok tokens)
    (hmatch : matchesPath tokens path = true) :
    ∃ more, path.toList = unescaped front ++ '/' :: more := by
  obtain ⟨token, others, rfl, hslash⟩ := exists_of_parse hpattern hfront hparse
  rcases matchesPath_iff.mp hmatch with heq | hmem
  · -- leading directories take no slash of their own
    exfalso
    cases hchars : unescaped front with
    | nil =>
      rw [hchars] at heq
      obtain ⟨rfl, -⟩ := List.cons.inj heq
      cases hslash
    | cons c chars =>
      rw [hchars] at heq
      simp at heq
  · -- the path spells the literals, and the token behind them takes a slash
    obtain ⟨between, hbytes, hrest⟩ := mem_restsAll_literals hmem
    obtain ⟨behind, hbehind, -⟩ := mem_restsAll_cons.mp hrest
    obtain ⟨bytes, rfl⟩ := Token.exists_of_takesSlash hslash hbehind
    have hstart : (unescaped front ++ ['/']).flatMap charBytes ++ bytes =
        path.toList.flatMap charBytes := by
      rw [← textBytes_eq, hbytes]
      simp [charBytes_slash]
    obtain ⟨more, hpath, -⟩ := textBytes_append_inj hstart
    refine ⟨more, ?_⟩
    rw [hpath]
    simp

end UpdateFeed.Glob
