import UpdateFeed.Proofs.Glob.Rests

/-!
# Slashes of patterns and paths

A path that a pattern matches has no more slashes than the pattern spells out, unless a token takes
slashes of its own accord: one of the stretches of two stars, or a class that admits a slash.
Slashes in a row count once, since no path has them.

- `Token.staysInName`: whether a token takes only the slashes that it spells out.
- `count_slash_le`: the bound for the paths that a list of tokens matches.
-/

namespace UpdateFeed.Glob

/-! ## §1 Counting -/

/-- Whether a name follows each slash. -/
def isTidy : Bytes → Bool
  | [] => true
  | b :: rest => (b ≠ slash || rest.head?.any (· ≠ slash)) && isTidy rest

theorem isTidy_of_suffix {rest bytes : Bytes} (h : isTidy bytes = true) (hrest : rest <:+ bytes) :
    isTidy rest = true := by
  induction bytes with
  | nil =>
    obtain rfl := List.suffix_nil.mp hrest
    exact h
  | cons b bytes ih =>
    rcases List.suffix_cons_iff.mp hrest with rfl | hrest
    · exact h
    · rw [isTidy, Bool.and_eq_true] at h
      exact ih h.2 hrest

/-- No slash follows a slash, nor does the end. -/
theorem exists_of_isTidy {rest : Bytes} (h : isTidy (slash :: rest) = true) :
    ∃ b more, rest = b :: more ∧ b ≠ slash := by
  rw [isTidy, Bool.and_eq_true] at h
  cases rest with
  | nil => simp at h
  | cons b more => exact ⟨b, more, rfl, by simpa using h.1⟩

namespace Token

/-- Whether a token is a slash. -/
def isSlash : Token → Bool
  | .literal c => c = '/'
  | _ => false

end Token

/-- Whether a list of tokens begins with a slash. -/
def startsWithSlash (tokens : List Token) : Bool :=
  tokens.head?.any Token.isSlash

mutual

/-- Whether a token takes no slashes but those that it spells out. -/
def Token.staysInName : Token → Bool
  | .leadingDirectories => false
  | .everythingBelow => false
  | .innerDirectories => false
  | .charClass listed => !listed.admits slash
  | .alternates branches => branchesStayInName branches
  | _ => true

/-- Whether all of some tokens do so. -/
def stayInName : List Token → Bool
  | [] => true
  | token :: tokens => token.staysInName && stayInName tokens

/-- Whether all branches of a group do so. -/
def branchesStayInName : List (List Token) → Bool
  | [] => true
  | branch :: branches => stayInName branch && branchesStayInName branches

end

theorem stayInName_append (first second : List Token) :
    stayInName (first ++ second) = (stayInName first && stayInName second) := by
  induction first with
  | nil => rfl
  | cons token first ih => rw [List.cons_append, stayInName, ih, stayInName, Bool.and_assoc]

theorem stayInName_reverse (tokens : List Token) :
    stayInName tokens.reverse = stayInName tokens := by
  induction tokens with
  | nil => rfl
  | cons token tokens ih =>
    rw [List.reverse_cons, stayInName_append, ih, stayInName, stayInName, stayInName,
      Bool.and_true, Bool.and_comm]

mutual

/-- How many slashes a token spells out, those in a row counted once. -/
def Token.slashRuns : Token → Nat
  | .literal c => if c = '/' then 1 else 0
  | .alternates branches => branchesSlashRuns branches
  | _ => 0

/-- How many slashes a list of tokens spells out. -/
def slashRuns : List Token → Nat
  | [] => 0
  | token :: tokens =>
    (if token.isSlash && startsWithSlash tokens then 0 else token.slashRuns) + slashRuns tokens

/-- How many slashes the branches of a group spell out together. -/
def branchesSlashRuns : List (List Token) → Nat
  | [] => 0
  | branch :: branches => slashRuns branch + branchesSlashRuns branches

end

/-! ## §2 Matching -/

/-- A literal takes no slash but itself. -/
theorem count_slash_charBytes (c : Char) :
    (charBytes c).count slash = if c = '/' then 1 else 0 := by
  split_ifs with hc
  · subst hc
    decide
  · exact List.count_eq_zero.mpr (slash_notMem_charBytes hc)

/-- What is behind a slash in a row of them begins with another one, which no name does. -/
theorem not_mem_restsAll_of_startsWithSlash {tokens : List Token} {bytes rest : Bytes}
    (htokens : startsWithSlash tokens = true) (htidy : isTidy (slash :: bytes) = true) :
    rest ∉ restsAll tokens [bytes] := by
  intro hrest
  obtain ⟨b, more, rfl, hb⟩ := exists_of_isTidy htidy
  cases tokens with
  | nil => simp [startsWithSlash] at htokens
  | cons token tokens =>
    obtain ⟨between, hbetween, -⟩ := mem_restsAll_cons.mp hrest
    cases token <;> simp [startsWithSlash, Token.isSlash] at htokens
    subst htokens
    rw [mem_rests_literal, charBytes_slash] at hbetween
    exact hb (List.cons.inj hbetween).1

mutual

theorem Token.count_slash_le {bytes rest : Bytes} (htidy : isTidy bytes = true) :
    (token : Token) → token.staysInName = true → rest ∈ token.rests bytes →
      rest <:+ bytes ∧ bytes.count slash ≤ token.slashRuns + rest.count slash
  | .literal c, _, hrest => by
    obtain rfl := mem_rests_literal.mp hrest
    refine ⟨List.suffix_append _ _, Nat.le_of_eq ?_⟩
    rw [List.count_append, count_slash_charBytes, Token.slashRuns]
  | .any, _, hrest => by
    -- the one byte that is taken is no slash
    rw [Token.rests] at hrest
    obtain ⟨b, rfl, hb⟩ := mem_oneByte.mp hrest
    have hne : b ≠ slash := by simpa using hb
    refine ⟨List.suffix_cons _ _, ?_⟩
    rw [List.count_cons_of_ne hne]
    exact Nat.le_add_left _ _
  | .zeroOrMore, _, hrest => by
    -- none of the bytes that are taken is a slash
    rw [Token.rests] at hrest
    obtain ⟨front, rfl, hfront⟩ := mem_endsInName hrest
    refine ⟨List.suffix_append _ _, ?_⟩
    rw [List.count_append, List.count_eq_zero.mpr hfront, Nat.zero_add]
    exact Nat.le_add_left _ _
  | .leadingDirectories, hstays, _ => by simp [Token.staysInName] at hstays
  | .everythingBelow, hstays, _ => by simp [Token.staysInName] at hstays
  | .innerDirectories, hstays, _ => by simp [Token.staysInName] at hstays
  | .charClass listed, hstays, hrest => by
    rw [Token.rests] at hrest
    obtain ⟨b, rfl, hb⟩ := mem_oneByte.mp hrest
    have hne : b ≠ slash := by
      rintro rfl
      simp [Token.staysInName, hb] at hstays
    refine ⟨List.suffix_cons _ _, ?_⟩
    rw [List.count_cons_of_ne hne]
    exact Nat.le_add_left _ _
  | .alternates branches, hstays, hrest => by
    rw [Token.staysInName] at hstays
    rw [Token.rests] at hrest
    rw [Token.slashRuns]
    split_ifs at hrest
    · -- a group of nothing but empty branches takes nothing
      obtain rfl := List.mem_singleton.mp hrest
      exact ⟨List.suffix_refl _, Nat.le_add_left _ _⟩
    · exact branches_count_slash_le htidy branches hstays hrest

theorem count_slash_le {start rest : Bytes} (htidy : isTidy start = true) :
    (tokens : List Token) → stayInName tokens = true → rest ∈ restsAll tokens [start] →
      rest <:+ start ∧ start.count slash ≤ slashRuns tokens + rest.count slash
  | [], _, hrest => by
    obtain rfl : rest = start := by simpa using hrest
    exact ⟨List.suffix_refl _, Nat.le_add_left _ _⟩
  | token :: tokens, hstay, hrest => by
    rw [stayInName, Bool.and_eq_true] at hstay
    -- the bounds of the first token and of the others meet at the rest between them
    obtain ⟨between, hbetween, hrest⟩ := mem_restsAll_cons.mp hrest
    obtain ⟨hsuffix, hfirst⟩ := Token.count_slash_le htidy token hstay.1 hbetween
    have hbetweenTidy := isTidy_of_suffix htidy hsuffix
    obtain ⟨hrestSuffix, hothers⟩ := count_slash_le hbetweenTidy tokens hstay.2 hrest
    refine ⟨hrestSuffix.trans hsuffix, ?_⟩
    rw [slashRuns]
    split_ifs with hrow
    · -- two slashes in a row are in no path, so there is nothing to count
      exfalso
      rw [Bool.and_eq_true] at hrow
      cases token <;> simp [Token.isSlash] at hrow
      obtain ⟨rfl, hstarts⟩ := hrow
      rw [mem_rests_literal, charBytes_slash] at hbetween
      subst hbetween
      exact not_mem_restsAll_of_startsWithSlash hstarts htidy hrest
    · omega

theorem branches_count_slash_le {bytes rest : Bytes} (htidy : isTidy bytes = true) :
    (branches : List (List Token)) → branchesStayInName branches = true →
      rest ∈ branchesRests branches bytes →
      rest <:+ bytes ∧ bytes.count slash ≤ branchesSlashRuns branches + rest.count slash
  | [], _, hrest => by simp [branchesRests] at hrest
  | branch :: branches, hstay, hrest => by
    rw [branchesStayInName, Bool.and_eq_true] at hstay
    rw [branchesRests, List.mem_append] at hrest
    rw [branchesSlashRuns]
    -- a way through one branch takes its slashes, which are some of all that are spelled out
    rcases hrest with hrest | hrest
    · split_ifs at hrest
      · simp at hrest
      · obtain ⟨hsuffix, hcount⟩ := count_slash_le htidy branch hstay.1 hrest
        exact ⟨hsuffix, by omega⟩
    · obtain ⟨hsuffix, hcount⟩ := branches_count_slash_le htidy branches hstay.2 hrest
      exact ⟨hsuffix, by omega⟩

end

end UpdateFeed.Glob
