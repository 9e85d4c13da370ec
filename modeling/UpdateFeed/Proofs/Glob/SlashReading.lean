import Mathlib.Algebra.Ring.Nat
import UpdateFeed.Proofs.Glob.Slashes

/-!
# Slashes that are read

Reading a pattern makes no slashes: a slash is pushed for each one that is read, a stretch of stars
takes one away, and groups only put the slashes of their branches together.  A slash that is read
counts when a name follows it, so that those in a row and those at the end do not.

- `Reading.weight`: the slashes of what is read.
- `settledRuns_le_of_readLexemes`: reading adds no more of them than the lexemes settle.
-/

namespace UpdateFeed.Glob

/-! ## §1 Slashes in a row -/

theorem slashRuns_of_isSlash {token : Token} (h : token.isSlash = true) : token.slashRuns = 1 := by
  cases token <;> simp [Token.isSlash] at h
  simp [Token.slashRuns, h]

theorem startsWithSlash_cons (token : Token) (tokens : List Token) :
    startsWithSlash (token :: tokens) = token.isSlash := rfl

/-- A token at the end of a list counts unless it is a slash behind another one. -/
theorem slashRuns_concat (tokens : List Token) (token : Token) :
    slashRuns (tokens ++ [token]) =
      (if token.isSlash && startsWithSlash tokens.reverse then 0 else token.slashRuns)
        + slashRuns tokens := by
  induction tokens with
  | nil => simp [slashRuns, startsWithSlash]
  | cons first tokens ih =>
    -- the first token looks at the one behind it, which is the last one only in a list of two
    rw [List.cons_append, slashRuns, slashRuns, ih]
    cases tokens with
    | nil =>
      -- of two slashes either one may be the one that counts
      simp only [List.nil_append, List.reverse_cons, List.reverse_nil, slashRuns, startsWithSlash,
        List.head?_nil, Option.any_none, Bool.and_false]
      cases hfirst : first.isSlash <;> cases htoken : token.isSlash <;>
        simp [slashRuns_of_isSlash, hfirst, htoken, Nat.add_comm]
    | cons second tokens =>
      have hlast : startsWithSlash (first :: second :: tokens).reverse =
          startsWithSlash (second :: tokens).reverse := by
        simp [startsWithSlash]
      rw [hlast, List.cons_append, startsWithSlash_cons, startsWithSlash_cons]
      omega

theorem slashRuns_reverse (tokens : List Token) : slashRuns tokens.reverse = slashRuns tokens := by
  induction tokens with
  | nil => rfl
  | cons token tokens ih =>
    rw [List.reverse_cons, slashRuns_concat, ih, List.reverse_reverse, slashRuns]

theorem branchesSlashRuns_eq (branches : List (List Token)) :
    branchesSlashRuns branches = (branches.map slashRuns).sum := by
  induction branches with
  | nil => rfl
  | cons branch branches ih => rw [branchesSlashRuns, ih, List.map_cons, List.sum_cons]

/-- The slashes of a list without those that it begins with. -/
def settledRuns (tokens : List Token) : Nat :=
  slashRuns (tokens.dropWhile Token.isSlash)

/-- What the slashes at the start of a list add. -/
def owed (tokens : List Token) : Nat :=
  if startsWithSlash tokens then 1 else 0

theorem slashRuns_le_settledRuns (tokens : List Token) :
    slashRuns tokens ≤ settledRuns tokens + owed tokens := by
  induction tokens with
  | nil => exact Nat.zero_le _
  | cons token tokens ih =>
    unfold settledRuns owed at *
    rw [startsWithSlash_cons, slashRuns]
    cases htoken : token.isSlash with
    | false => simp [htoken, slashRuns]
    | true =>
      -- slashes in a row count once, so the first one adds nothing to those that follow it
      rw [List.dropWhile_cons_of_pos htoken, slashRuns_of_isSlash htoken]
      cases hstarts : startsWithSlash tokens <;> simp [hstarts] at ih ⊢ <;> omega

/-- Whether a token spells out no slash. -/
def Token.IsSilent (token : Token) : Prop :=
  token.isSlash = false ∧ token.slashRuns = 0

theorem slashRuns_cons_of_isSilent {token : Token} (h : token.IsSilent)
    (tokens : List Token) : slashRuns (token :: tokens) = slashRuns tokens := by
  rw [slashRuns, h.1, h.2]
  simp

theorem settledRuns_cons_of_isSilent {token : Token} (h : token.IsSilent)
    (tokens : List Token) : settledRuns (token :: tokens) = slashRuns tokens := by
  rw [settledRuns, List.dropWhile_cons_of_neg (by simp [h.1]), slashRuns_cons_of_isSilent h]

/-! ## §2 Reading -/

namespace Reading

/-- The slashes that are spelled out by what is read, without those just read. -/
def weight (reading : Reading) : Nat :=
  settledRuns reading.tokens + branchesSlashRuns reading.branches
    + (reading.around.map fun outer =>
        slashRuns outer.tokens + branchesSlashRuns outer.branches).sum

/-- Whether a slash as the last token is also the last character. -/
def Heeds (reading : Reading) : Prop :=
  startsWithSlash reading.tokens = true → reading.previous? = some '/'

variable {reading : Reading}

theorem heeds_of_not_startsWithSlash (h : startsWithSlash reading.tokens = false) :
    reading.Heeds := by
  intro hstarts
  rw [h] at hstarts
  cases hstarts

theorem heeds_push_literal (c : Char) : (reading.push (.literal c) c).Heeds := by
  intro hstarts
  have hc : c = '/' := by simpa [push, startsWithSlash_cons, Token.isSlash] using hstarts
  rw [hc]
  rfl

/-- A token that spells out no slash settles those before it. -/
theorem weight_push_le {token : Token} (h : token.IsSilent) (last : Char) :
    (reading.push token last).weight ≤ reading.weight + owed reading.tokens := by
  have hle := slashRuns_le_settledRuns reading.tokens
  simp only [weight, push, settledRuns_cons_of_isSilent h]
  omega

theorem weight_push_slash (last : Char) :
    (reading.push (.literal '/') last).weight = reading.weight := by
  have hslash : (Token.literal '/').isSlash = true := by decide
  simp only [weight, push, settledRuns, List.dropWhile_cons_of_pos hslash]

theorem weight_push_literal_le (c : Char) :
    (reading.push (.literal c) c).weight ≤ reading.weight + owed reading.tokens := by
  by_cases hc : c = '/'
  · subst hc
    rw [weight_push_slash]
    exact Nat.le_add_right _ _
  · apply weight_push_le
    constructor
    · simpa [Token.isSlash] using hc
    · simp [Token.slashRuns, hc]

theorem weight_twoStars_le :
    reading.twoStars.weight ≤ reading.weight + owed reading.tokens := by
  have hstar : Token.zeroOrMore.IsSilent := ⟨rfl, rfl⟩
  have hle := slashRuns_le_settledRuns reading.tokens
  simp only [weight, twoStars, settledRuns_cons_of_isSilent hstar, slashRuns_cons_of_isSilent hstar]
  omega

/-- A stretch of stars spells out no slash, and takes the one before it away. -/
theorem starStretch_spec (reading : Reading) {token : Token} (h : token.IsSilent) (last : Char) :
    startsWithSlash (reading.starStretch token last).tokens = false
      ∧ settledRuns (reading.starStretch token last).tokens ≤ slashRuns reading.tokens := by
  have hleading : Token.leadingDirectories.IsSilent := ⟨rfl, rfl⟩
  have heverything : Token.everythingBelow.IsSilent := ⟨rfl, rfl⟩
  unfold starStretch
  dsimp only
  -- behind another stretch nothing is pushed; otherwise the last token goes, if there is one
  split
  · rename_i htokens
    refine ⟨rfl, Nat.le_of_eq ?_⟩
    rw [htokens, settledRuns_cons_of_isSilent hleading, slashRuns_cons_of_isSilent hleading]
  · rename_i htokens
    refine ⟨rfl, Nat.le_of_eq ?_⟩
    rw [htokens, settledRuns_cons_of_isSilent heverything, slashRuns_cons_of_isSilent heverything]
  · rename_i htokens
    refine ⟨h.1, ?_⟩
    rw [htokens, settledRuns_cons_of_isSilent h, slashRuns]
    exact Nat.le_add_left _ _
  · rename_i htokens
    refine ⟨h.1, Nat.le_of_eq ?_⟩
    rw [htokens, settledRuns_cons_of_isSilent h]

theorem weight_starStretch_le {token : Token} (h : token.IsSilent) (last : Char) :
    (reading.starStretch token last).weight ≤ reading.weight + owed reading.tokens := by
  have hle := slashRuns_le_settledRuns reading.tokens
  have hstretch := (starStretch_spec reading h last).2
  have hbranches : (reading.starStretch token last).branches = reading.branches := rfl
  have haround : (reading.starStretch token last).around = reading.around := rfl
  simp only [weight, hbranches, haround]
  omega

theorem weight_openGroup_le :
    reading.openGroup.weight ≤ reading.weight + owed reading.tokens := by
  have hle := slashRuns_le_settledRuns reading.tokens
  have hempty : settledRuns [] = 0 := rfl
  simp only [weight, openGroup, hempty, branchesSlashRuns, List.map_cons, List.sum_cons]
  omega

theorem weight_comma_le : reading.comma.weight ≤ reading.weight + owed reading.tokens := by
  have hle := slashRuns_le_settledRuns reading.tokens
  have hempty : settledRuns [] = 0 := rfl
  unfold comma
  split_ifs
  · exact weight_push_le ⟨by decide, by decide⟩ ','
  · simp only [weight, hempty, branchesSlashRuns, slashRuns_reverse]
    omega

theorem comma_spec (reading : Reading) :
    startsWithSlash reading.comma.tokens = false ∧ reading.comma.previous? = some ',' := by
  unfold comma
  split_ifs <;> exact ⟨rfl, rfl⟩

/-- A group spells out the slashes of its branches. -/
theorem weight_closeGroup_le {closed : Reading} (h : reading.closeGroup = .ok closed) :
    closed.weight ≤ reading.weight + owed reading.tokens
      ∧ startsWithSlash closed.tokens = false ∧ closed.previous? = some '\x7d' := by
  unfold closeGroup at h
  split at h
  · cases h
  · rename_i outer around haround
    obtain rfl := Except.ok.inj h
    refine ⟨?_, rfl, rfl⟩
    have hle := slashRuns_le_settledRuns reading.tokens
    -- the order of the branches, and of the tokens in a branch, does not matter
    have hbranches : branchesSlashRuns (reading.tokens.reverse :: reading.branches).reverse =
        slashRuns reading.tokens + branchesSlashRuns reading.branches := by
      rw [branchesSlashRuns_eq, List.map_reverse, List.sum_reverse, ← branchesSlashRuns_eq,
        branchesSlashRuns, slashRuns_reverse]
    have hgroup : settledRuns (.alternates (reading.tokens.reverse :: reading.branches).reverse
        :: outer.tokens) = slashRuns reading.tokens + branchesSlashRuns reading.branches
          + slashRuns outer.tokens := by
      rw [settledRuns, List.dropWhile_cons_of_neg (by simp [Token.isSlash]), slashRuns,
        Token.slashRuns, hbranches]
      rfl
    simp only [weight, haround, hgroup, List.map_cons, List.sum_cons]
    omega

end Reading

/-- The lexemes, and the characters, in which a slash before them finds a name: each one behind a
slash that is no slash itself. -/
def settling (afterSlash : Bool) : List Lexeme → Nat
  | [] => 0
  | lexeme :: rest =>
    (if afterSlash && lexeme ≠ .char '/' then 1 else 0) + settling (lexeme.last = '/') rest

theorem owed_add_settling_le {reading : Reading} (hheeds : reading.Heeds) {lexeme : Lexeme}
    (hlexeme : lexeme ≠ .char '/') (rest : List Lexeme) :
    owed reading.tokens + settling (lexeme.last = '/') rest ≤
      settling (reading.previous? = some '/') (lexeme :: rest) := by
  unfold owed
  split_ifs with hstarts
  · simp [settling, hheeds hstarts, hlexeme]
  · simp [settling]

/-- One lexeme settles what its token adds. -/
private theorem settled_step {before after : Reading} (hheeds : before.Heeds) {lexeme : Lexeme}
    (hlexeme : lexeme ≠ .char '/') (hweight : after.weight ≤ before.weight + owed before.tokens)
    (hlast : after.previous? = some lexeme.last) (rest : List Lexeme) :
    after.weight + settling (after.previous? = some '/') rest ≤
      before.weight + settling (before.previous? = some '/') (lexeme :: rest) := by
  have howed := owed_add_settling_le hheeds hlexeme rest
  have hprevious : (decide (after.previous? = some '/')) = decide (lexeme.last = '/') := by
    rw [hlast]
    simp
  rw [hprevious]
  omega

/-- Two stars settle no less than one. -/
private theorem settled_stars {before after : Reading} (hheeds : before.Heeds)
    (hweight : after.weight ≤ before.weight + owed before.tokens)
    (hlast : after.previous? = some '*') (rest : List Lexeme) :
    after.weight + settling (after.previous? = some '/') rest ≤
      before.weight + settling (before.previous? = some '/') (.star :: .star :: rest) := by
  have hstar : Lexeme.star ≠ .char '/' := by simp
  have hstep := settled_step hheeds hstar hweight hlast (.star :: rest)
  have hnone : (decide (after.previous? = some '/')) = false := by
    rw [hlast]
    decide
  rw [hnone] at hstep ⊢
  simpa [settling, Lexeme.last] using hstep

/-- Two stars and a slash settle no less than one star, and the slash is still to be settled. -/
private theorem settled_stretch {before after : Reading} (hheeds : before.Heeds)
    (hweight : after.weight ≤ before.weight + owed before.tokens)
    (hlast : after.previous? = some '/') (rest : List Lexeme) :
    after.weight + settling (after.previous? = some '/') rest ≤
      before.weight
        + settling (before.previous? = some '/') (.star :: .star :: .char '/' :: rest) := by
  have hstar : Lexeme.star ≠ .char '/' := by simp
  have howed := owed_add_settling_le hheeds hstar (.star :: .char '/' :: rest)
  have hslash : (decide (after.previous? = some '/')) = true := by
    rw [hlast]
    decide
  have hinner : settling (Lexeme.star.last = '/') (.star :: .char '/' :: rest) =
      settling true rest := by
    simp [settling, Lexeme.last]
  rw [hinner] at howed
  rw [hslash]
  omega

/-- Reading adds no more slashes than the lexemes settle. -/
theorem settledRuns_le_of_readLexemes {reading : Reading} {lexemes : List Lexeme}
    {tokens : List Token} (hheeds : reading.Heeds)
    (h : readLexemes reading lexemes = .ok tokens) :
    settledRuns tokens.reverse ≤
      reading.weight + settling (reading.previous? = some '/') lexemes := by
  have hstar : Lexeme.star ≠ .char '/' := by simp
  -- in each case, the weight grows by no more than the lexemes that are read settle
  fun_induction readLexemes reading lexemes with
  | case1 reading =>
    unfold Reading.finish at h
    split_ifs at h
    obtain rfl := Except.ok.inj h
    rw [List.reverse_reverse]
    simp only [Reading.weight]
    omega
  | case2 reading rest hempty ih =>
    apply Nat.le_trans (ih (Reading.heeds_of_not_startsWithSlash rfl) h)
    exact settled_stretch hheeds (Reading.weight_push_le ⟨rfl, rfl⟩ '/') rfl rest
  | case3 reading rest hne hstart ih =>
    have hsilent : Token.innerDirectories.IsSilent := ⟨rfl, rfl⟩
    have hstretch := Reading.starStretch_spec reading hsilent '/'
    apply Nat.le_trans (ih (Reading.heeds_of_not_startsWithSlash hstretch.1) h)
    exact settled_stretch hheeds (Reading.weight_starStretch_le hsilent '/') rfl rest
  | case4 reading rest hne hstart ih =>
    have hweight : (reading.twoStars.push (.literal '/') '/').weight ≤
        reading.weight + owed reading.tokens := by
      rw [Reading.weight_push_slash]
      exact Reading.weight_twoStars_le
    apply Nat.le_trans (ih (Reading.heeds_push_literal '/') h)
    exact settled_stretch hheeds hweight rfl rest
  | case5 reading rest hslash hempty hend ih =>
    apply Nat.le_trans (ih (Reading.heeds_of_not_startsWithSlash rfl) h)
    exact settled_stars hheeds (Reading.weight_push_le ⟨rfl, rfl⟩ '*') rfl rest
  | case6 reading rest hslash hempty hend ih =>
    apply Nat.le_trans (ih (Reading.heeds_of_not_startsWithSlash rfl) h)
    exact settled_stars hheeds Reading.weight_twoStars_le rfl rest
  | case7 reading rest hslash hne hstretch ih =>
    have hsilent : Token.everythingBelow.IsSilent := ⟨rfl, rfl⟩
    have hspec := Reading.starStretch_spec reading hsilent '*'
    apply Nat.le_trans (ih (Reading.heeds_of_not_startsWithSlash hspec.1) h)
    exact settled_stars hheeds (Reading.weight_starStretch_le hsilent '*') rfl rest
  | case8 reading rest hslash hne hstretch ih =>
    apply Nat.le_trans (ih (Reading.heeds_of_not_startsWithSlash rfl) h)
    exact settled_stars hheeds Reading.weight_twoStars_le rfl rest
  | case9 reading rest _ _ ih =>
    apply Nat.le_trans (ih (Reading.heeds_of_not_startsWithSlash rfl) h)
    exact settled_step hheeds hstar (Reading.weight_push_le ⟨rfl, rfl⟩ '*') rfl rest
  | case10 reading rest ih =>
    apply Nat.le_trans (ih (Reading.heeds_of_not_startsWithSlash rfl) h)
    exact settled_step hheeds (by simp) (Reading.weight_push_le ⟨rfl, rfl⟩ '?') rfl rest
  | case11 reading listed rest ih =>
    apply Nat.le_trans (ih (Reading.heeds_of_not_startsWithSlash rfl) h)
    exact settled_step hheeds (by simp) (Reading.weight_push_le ⟨rfl, rfl⟩ ']') rfl rest
  | case12 reading rest ih =>
    apply Nat.le_trans (ih (Reading.heeds_of_not_startsWithSlash rfl) h)
    exact settled_step hheeds (by simp) Reading.weight_openGroup_le rfl rest
  | case13 reading rest closed hclosed ih =>
    have hgroup := Reading.weight_closeGroup_le hclosed
    apply Nat.le_trans (ih (Reading.heeds_of_not_startsWithSlash hgroup.2.1) h)
    have hlexeme : Lexeme.closeGroup ≠ .char '/' := by simp
    exact settled_step hheeds hlexeme hgroup.1 hgroup.2.2 rest
  | case14 => cases h
  | case15 reading rest ih =>
    -- a comma is silent: outside of groups it is a literal, inside it ends a branch
    have hcomma := Reading.comma_spec reading
    apply Nat.le_trans (ih (Reading.heeds_of_not_startsWithSlash hcomma.1) h)
    have hlexeme : Lexeme.comma ≠ .char '/' := by simp
    exact settled_step hheeds hlexeme Reading.weight_comma_le hcomma.2 rest
  | case16 => cases h
  | case17 reading c rest ih =>
    apply Nat.le_trans (ih (Reading.heeds_push_literal c) h)
    by_cases hc : c = '/'
    · -- a further slash waits to be settled like the one before it
      subst hc
      rw [Reading.weight_push_slash]
      simp [settling, Lexeme.last, Reading.push]
    · have hlexeme : Lexeme.char c ≠ .char '/' := by simpa using hc
      exact settled_step hheeds hlexeme (Reading.weight_push_literal_le c) rfl rest
  | case18 reading c rest ih =>
    apply Nat.le_trans (ih (Reading.heeds_push_literal c) h)
    exact settled_step hheeds (by simp) (Reading.weight_push_literal_le c) rfl rest

end UpdateFeed.Glob
