import Mathlib.Algebra.Order.Field.Power
import Mathlib.Data.Rat.Cast.Order
import Mathlib.Tactic.FieldSimp
import Mathlib.Tactic.Linarith
import Mathlib.Tactic.Positivity
import Mathlib.Tactic.Ring
import UpdateFeed.Binary64.Basic

/-!
# Rounding to doubles

A quotient is rounded in two steps: an exponent is found at which it has 53 bits, and it is then
rounded to a whole number of units of that exponent.  Both steps are fixed by what they give: there
is one exponent for each number above zero, and one nearest whole number.

- `IsNearest`, `IsExponent`: what the two steps give.
- `round?_eq_ofRank?`: the rank of a rounded quotient.
- `toRat_of_rank`: the value of the double of a rank.
- `toRat_le_of_round?`: rounding keeps the order.
- `exists_of_lt_overflow`: what is below the overflow is rounded to a double.
- `toRat_of_round?_exact`: what has at most 53 bits is rounded to itself.
-/

namespace UpdateFeed

/-! ## §1 Nearest whole numbers -/

/-- A whole number nearest to `q`, the even one of two. -/
structure IsNearest (n : Nat) (q : ℚ) : Prop where
  low : (n : ℚ) - 1 / 2 ≤ q
  high : q ≤ n + 1 / 2
  even : q = n - 1 / 2 ∨ q = n + 1 / 2 → n % 2 = 0

/-- Within less than a half there is no second candidate. -/
theorem IsNearest.of_lt {n : Nat} {q : ℚ} (hlow : (n : ℚ) - 1 / 2 < q) (hhigh : q < n + 1 / 2) :
    IsNearest n q where
  low := hlow.le
  high := hhigh.le
  even := by
    rintro (heq | heq)
    · exact absurd heq hlow.ne'
    · exact absurd heq hhigh.ne

theorem isNearest_nearest (num : Nat) {den : Nat} (h : 0 < den) :
    IsNearest (nearest num den) (num / den) := by
  have hden : (0 : ℚ) < den := by exact_mod_cast h
  have hlt : num % den < den := Nat.mod_lt num h
  -- the quotient is its whole part and a rest below one, which decides by its place beside a half
  have hnum : (num : ℚ) / den = (num / den : Nat) + ((num % den : Nat) : ℚ) / den := by
    rw [div_eq_iff hden.ne', add_mul, div_mul_cancel₀ _ hden.ne', mul_comm]
    exact_mod_cast (Nat.div_add_mod num den).symm
  -- what is compared without fractions is whether the rest is below a half, or above it
  have hhalf : ∀ rest : Nat, (rest : ℚ) / den < 1 / 2 ↔ 2 * rest < den := by
    intro rest
    rw [div_lt_div_iff₀ hden two_pos]
    norm_cast
    omega
  have hhalf' : ∀ rest : Nat, 1 / 2 < (rest : ℚ) / den ↔ den < 2 * rest := by
    intro rest
    rw [div_lt_div_iff₀ two_pos hden]
    norm_cast
    omega
  have hrest : 0 ≤ ((num % den : Nat) : ℚ) / den ∧ ((num % den : Nat) : ℚ) / den < 1 := by
    rw [div_lt_one hden]
    exact ⟨by positivity, by exact_mod_cast hlt⟩
  have hsucc : ((num / den + 1 : Nat) : ℚ) = (num / den : Nat) + 1 := Nat.cast_succ _
  unfold nearest
  rw [hnum]
  dsimp only
  split
  · -- the rest is less than a half
    rename_i hsmall
    have hsmall := (hhalf _).mpr hsmall
    exact .of_lt (by linarith) (by linarith)
  · rename_i hnotSmall
    split
    · -- the rest is more than a half
      rename_i hlarge
      have hlarge := (hhalf' _).mpr hlarge
      exact .of_lt (by linarith) (by linarith)
    · -- the rest is a half, so the even neighbour is taken
      rename_i hnotLarge
      have hequal : ((num % den : Nat) : ℚ) / den = 1 / 2 :=
        le_antisymm (not_lt.mp fun hlt => hnotLarge ((hhalf' _).mp hlt))
          (not_lt.mp fun hlt => hnotSmall ((hhalf _).mp hlt))
      rw [hequal]
      rcases Nat.mod_two_eq_zero_or_one (num / den) with heven | hodd
      · -- an even whole part is kept
        rw [heven, Nat.add_zero]
        exact ⟨by linarith, by linarith, fun _ => heven⟩
      · -- an odd one goes up by one
        rw [hodd]
        exact ⟨by linarith, by linarith, fun _ => by omega⟩

/-- The nearest whole numbers of greater numbers are greater. -/
theorem IsNearest.le {n n' : Nat} {q q' : ℚ} (h : IsNearest n q) (h' : IsNearest n' q')
    (hle : q ≤ q') : n ≤ n' := by
  by_contra hlt
  have hnext : (n' : ℚ) + 1 ≤ n := by exact_mod_cast Nat.lt_of_not_le hlt
  have hlow := h.low
  have hhigh := h'.high
  -- both would be a half away from the same number, and both even
  have hq : q = n - 1 / 2 := by linarith
  have hq' : q' = n' + 1 / 2 := by linarith
  have hsucc : n = n' + 1 := by
    have hcast : (n : ℚ) = n' + 1 := by linarith
    exact_mod_cast hcast
  have heven := h.even (.inl hq)
  have heven' := h'.even (.inr hq')
  omega

theorem IsNearest.eq {n n' : Nat} {q : ℚ} (h : IsNearest n q) (h' : IsNearest n' q) : n = n' :=
  Nat.le_antisymm (h.le h' le_rfl) (h'.le h le_rfl)

/-- A whole number is nearest to itself. -/
theorem isNearest_self (n : Nat) : IsNearest n n :=
  .of_lt (by linarith) (by linarith)

namespace Binary64

/-! ## §2 Exponents -/

/-- An exponent at which a number has 53 bits before the point, or fewer at the least exponent. -/
structure IsExponent (e : Int) (q : ℚ) : Prop where
  least : -1074 ≤ e
  lt : q < 2 ^ (e + 53)
  ge : 2 ^ (e + 52) ≤ q ∨ e = -1074

/-- The exponents of greater numbers are greater. -/
theorem IsExponent.le {e e' : Int} {q q' : ℚ} (h : IsExponent e q) (h' : IsExponent e' q')
    (hle : q ≤ q') : e ≤ e' := by
  by_contra hlt
  -- with a greater exponent the lesser number would have more bits than the greater one
  rcases h.ge with hge | rfl
  · have hpow : (2 : ℚ) ^ (e' + 53) ≤ 2 ^ (e + 52) := zpow_le_zpow_right₀ one_le_two (by omega)
    have hlt := h'.lt
    linarith
  · have hleast := h'.least
    omega

theorem IsExponent.eq {e e' : Int} {q : ℚ} (h : IsExponent e q) (h' : IsExponent e' q) : e = e' :=
  Int.le_antisymm (h.le h' le_rfl) (h'.le h le_rfl)

/-- A quotient lies between two powers of two that follow one another. -/
theorem exists_log (num den : Nat) (hnum : 0 < num) (hden : 0 < den) :
    let bits : Int := (num.log2 : Int) - (den.log2 : Int)
    (2 : ℚ) ^ (bits - 1) < num / den ∧ (num : ℚ) / den < 2 ^ (bits + 1) := by
  have hdenQ : (0 : ℚ) < den := by exact_mod_cast hden
  have hlow : ((2 : ℚ) ^ (num.log2 : Int)) ≤ num := by
    rw [zpow_natCast]
    exact_mod_cast Nat.log2_self_le hnum.ne'
  have hhigh : (num : ℚ) < 2 ^ ((num.log2 : Int) + 1) := by
    exact_mod_cast Nat.lt_log2_self
  have hlow' : ((2 : ℚ) ^ (den.log2 : Int)) ≤ den := by
    rw [zpow_natCast]
    exact_mod_cast Nat.log2_self_le hden.ne'
  have hhigh' : (den : ℚ) < 2 ^ ((den.log2 : Int) + 1) := by
    exact_mod_cast Nat.lt_log2_self
  -- the bounds of the logarithms from below and from above are multiplied crosswise
  intro bits
  constructor
  · rw [lt_div_iff₀ hdenQ]
    calc (2 : ℚ) ^ (bits - 1) * den < 2 ^ (bits - 1) * 2 ^ ((den.log2 : Int) + 1) :=
          mul_lt_mul_of_pos_left hhigh' (by positivity)
      _ = 2 ^ (num.log2 : Int) := by
          rw [← zpow_add₀ two_ne_zero]
          congr 1
          omega
      _ ≤ num := hlow
  · rw [div_lt_iff₀ hdenQ]
    calc (num : ℚ) < 2 ^ ((num.log2 : Int) + 1) := hhigh
      _ = 2 ^ (bits + 1) * 2 ^ (den.log2 : Int) := by
          rw [← zpow_add₀ two_ne_zero]
          congr 1
          omega
      _ ≤ 2 ^ (bits + 1) * den := mul_le_mul_of_nonneg_left hlow' (by positivity)

/-- Whether a quotient reaches a power of two, without fractions. -/
def reaches (num den : Nat) (bits : Int) : Bool :=
  match bits with
  | .ofNat k => den * Nat.pow 2 k ≤ num
  | .negSucc k => den ≤ num * Nat.pow 2 (k + 1)

theorem reaches_iff (num : Nat) {den : Nat} (hden : 0 < den) (bits : Int) :
    reaches num den bits = true ↔ (2 : ℚ) ^ bits ≤ num / den := by
  have hdenQ : (0 : ℚ) < den := by exact_mod_cast hden
  -- a negative power stands on the other side of the comparison
  cases bits with
  | ofNat k =>
    rw [reaches, decide_eq_true_iff, le_div_iff₀ hdenQ, Int.ofNat_eq_natCast, zpow_natCast,
      mul_comm]
    norm_cast
  | negSucc k =>
    rw [reaches, decide_eq_true_iff, zpow_negSucc, le_div_iff₀ hdenQ,
      inv_mul_le_iff₀ (by positivity), mul_comm]
    norm_cast

theorem roundingExponent_eq (num den : Nat) : roundingExponent num den =
    let bits : Int := (num.log2 : Int) - (den.log2 : Int)
    let exponent := if reaches num den bits then bits - 52 else bits - 53
    if exponent < -1074 then -1074 else exponent :=
  rfl

/-- The exponent of a number between two powers of two that follow one another. -/
theorem isExponent_of_log {log : Int} {q : ℚ} (hlow : 2 ^ log ≤ q) (hhigh : q < 2 ^ (log + 1)) :
    IsExponent (if log - 52 < -1074 then -1074 else log - 52) q := by
  split
  · -- below the least exponent of full length there are fewer bits
    have hpow : (2 : ℚ) ^ (log + 1) ≤ 2 ^ (-1074 + 53 : Int) :=
      zpow_le_zpow_right₀ one_le_two (by omega)
    exact ⟨le_rfl, hhigh.trans_le hpow, .inr rfl⟩
  · -- full length: the leading bit is the one of value `2 ^ log`
    refine ⟨by omega, ?_, .inl ?_⟩
    · rwa [show log - 52 + 53 = log + 1 by omega]
    · rwa [show log - 52 + 52 = log by omega]

/-- The exponent that is found. -/
theorem isExponent_roundingExponent {num den : Nat} (hnum : 0 < num) (hden : 0 < den) :
    IsExponent (roundingExponent num den) (num / den) := by
  obtain ⟨hlow, hhigh⟩ := exists_log num den hnum hden
  have hreaches := reaches_iff num hden ((num.log2 : Int) - (den.log2 : Int))
  rw [roundingExponent_eq]
  dsimp only
  generalize (num.log2 : Int) - (den.log2 : Int) = bits at hlow hhigh hreaches ⊢
  by_cases hreach : (2 : ℚ) ^ bits ≤ num / den
  · -- the greater one of the two powers is reached
    rw [if_pos (hreaches.mpr hreach)]
    exact isExponent_of_log hreach hhigh
  · -- only the lesser one is reached, so there is one bit less
    rw [if_neg fun h => hreach (hreaches.mp h), show bits - 53 = bits - 1 - 52 by omega]
    refine isExponent_of_log hlow.le ?_
    rw [show bits - 1 + 1 = bits by omega]
    exact not_le.mp hreach

/-! ## §3 Values -/

/-- A double as a rational number. -/
def toRat (x : Binary64) : ℚ := x.significand * 2 ^ x.exponent

theorem scale_pos (value : Nat) (e : Int) : 0 < (scale value e).2 := by
  cases e with
  | ofNat k => exact Nat.one_pos
  | negSucc k => exact Nat.pow_pos two_pos

theorem scale_eq (value : Nat) (e : Int) :
    ((scale value e).1 : ℚ) / (scale value e).2 = value * 2 ^ e := by
  cases e with
  | ofNat k => simp [scale]
  | negSucc k =>
    rw [zpow_negSucc, ← div_eq_mul_inv]
    simp [scale]

/-- The rank of a number of units of an exponent. -/
def rankOf (e : Int) (units : Nat) : Nat := (e + 1074).toNat * binade + units

theorem rank_eq (x : Binary64) : x.rank = rankOf x.exponent x.significand := by
  unfold rankOf exponent significand binade
  split <;> omega

theorem exponent_ge (x : Binary64) : -1074 ≤ x.exponent := by
  unfold exponent binade
  split <;> omega

theorem significand_lt (x : Binary64) : x.significand < 2 ^ 53 := by
  unfold significand binade
  split <;> omega

theorem significand_ge (x : Binary64) : 2 ^ 52 ≤ x.significand ∨ x.exponent = -1074 := by
  unfold significand exponent binade
  split
  · exact .inr rfl
  · exact .inl (by omega)

/-- The value of the double of a rank. -/
theorem toRat_of_rank {x : Binary64} {e : Int} {units : Nat} (hrank : x.rank = rankOf e units)
    (hleast : -1074 ≤ e) (hhigh : units ≤ 2 ^ 53) (hlow : 2 ^ 52 ≤ units ∨ e = -1074) :
    x.toRat = units * 2 ^ e := by
  unfold rankOf binade at hrank
  unfold toRat
  by_cases hcarry : units = 2 ^ 53
  · -- the units have carried into the next exponent
    have hexponent : x.exponent = e + 1 := by
      unfold exponent binade
      split <;> omega
    have hsignificand : x.significand = 2 ^ 52 := by
      unfold significand binade
      split <;> omega
    rw [hexponent, hsignificand, hcarry, zpow_add₀ two_ne_zero]
    norm_num
    ring
  · -- without a carry the rank is cut into the exponent and the units that it was made of
    have hexponent : x.exponent = e := by
      unfold exponent binade
      split <;> omega
    have hsignificand : x.significand = units := by
      unfold significand binade
      split <;> omega
    rw [hexponent, hsignificand]

/-! ## §4 Rounding -/

/-- What rounding a quotient finds. -/
structure Rounded (q : ℚ) (e : Int) (units : Nat) : Prop where
  exponent : IsExponent e q
  nearest : IsNearest units (q / 2 ^ e)

namespace Rounded

variable {q : ℚ} {e : Int} {units : Nat}

/-- The units have at most 53 bits, or are the first number with one more. -/
theorem units_le (h : Rounded q e units) : units ≤ 2 ^ 53 := by
  have hpow : (0 : ℚ) < 2 ^ e := by positivity
  have hlt : q / 2 ^ e < 2 ^ 53 := by
    rw [div_lt_iff₀ hpow]
    have hlt := h.exponent.lt
    rw [zpow_add₀ two_ne_zero, mul_comm] at hlt
    exact_mod_cast hlt
  have hle := h.nearest.le (isNearest_self (2 ^ 53)) (by exact_mod_cast hlt.le)
  exact hle

/-- Above the least exponent the units have 53 bits. -/
theorem units_ge (h : Rounded q e units) : 2 ^ 52 ≤ units ∨ e = -1074 := by
  rcases h.exponent.ge with hge | hleast
  · left
    have hpow : (0 : ℚ) < 2 ^ e := by positivity
    have hle : (2 ^ 52 : ℚ) ≤ q / 2 ^ e := by
      rw [le_div_iff₀ hpow]
      rw [zpow_add₀ two_ne_zero, mul_comm] at hge
      exact_mod_cast hge
    exact (isNearest_self (2 ^ 52)).le h.nearest (by exact_mod_cast hle)
  · exact .inr hleast

end Rounded

/-- A quotient above zero has a rank, if that is below the overflow. -/
theorem exists_rounded {num den : Nat} (hnum : 0 < num) (hden : 0 < den) :
    ∃ e units, Rounded (num / den) e units ∧ round? num den = ofRank? (rankOf e units) := by
  have hexponent := isExponent_roundingExponent hnum hden
  unfold round?
  rw [if_neg hden.ne', if_neg hnum.ne']
  dsimp only
  generalize roundingExponent num den = e at hexponent ⊢
  refine ⟨e, _, ⟨hexponent, ?_⟩, rfl⟩
  -- the power of two goes to the denominator or to the numerator
  cases e with
  | ofNat k =>
    have hnearest := isNearest_nearest num (Nat.mul_pos hden (Nat.pow_pos (n := k) two_pos))
    have hvalue : ((num : ℚ) / den) / 2 ^ (Int.ofNat k) = num / (den * Nat.pow 2 k : Nat) := by
      rw [Int.ofNat_eq_natCast, zpow_natCast, div_div]
      norm_cast
    rw [hvalue]
    exact hnearest
  | negSucc k =>
    have hnearest := isNearest_nearest (num * Nat.pow 2 (k + 1)) hden
    have hvalue : ((num : ℚ) / den) / 2 ^ (Int.negSucc k) =
        (num * Nat.pow 2 (k + 1) : Nat) / den := by
      rw [zpow_negSucc, div_inv_eq_mul, div_mul_eq_mul_div]
      norm_cast
    rw [hvalue]
    exact hnearest

theorem Rounded.unique {q : ℚ} {e e' : Int} {units units' : Nat} (h : Rounded q e units)
    (h' : Rounded q e' units') : e = e' ∧ units = units' := by
  obtain rfl := h.exponent.eq h'.exponent
  exact ⟨rfl, h.nearest.eq h'.nearest⟩

theorem rank_of_ofRank? {rank : Nat} {x : Binary64} (h : ofRank? rank = some x) :
    x.rank = rank := by
  unfold ofRank? at h
  split at h
  · obtain rfl := Option.some.inj h
    rfl
  · cases h

theorem ofRank?_rank (x : Binary64) : ofRank? x.rank = some x := by
  simp [ofRank?, x.rank_lt]

variable {num den : Nat} {x : Binary64}

/-- What rounding a quotient finds gives the rank of the double. -/
theorem round?_eq (hnum : 0 < num) (hden : 0 < den) {e : Int} {units : Nat}
    (h : Rounded (num / den) e units) : round? num den = ofRank? (rankOf e units) := by
  obtain ⟨e', units', h', hround⟩ := exists_rounded hnum hden
  obtain ⟨rfl, rfl⟩ := h.unique h'
  exact hround

/-- The value of a rounded quotient. -/
theorem exists_of_round? (hnum : 0 < num) (hden : 0 < den) (h : round? num den = some x) :
    ∃ e units, Rounded (num / den) e units ∧ x.toRat = units * 2 ^ e := by
  obtain ⟨e, units, hrounded, hround⟩ := exists_rounded hnum hden
  rw [hround] at h
  exact ⟨e, units, hrounded, toRat_of_rank (rank_of_ofRank? h) hrounded.exponent.least
    hrounded.units_le hrounded.units_ge⟩

/-- Rounded values of greater numbers are greater. -/
theorem Rounded.value_le {q q' : ℚ} {e e' : Int} {units units' : Nat} (h : Rounded q e units)
    (h' : Rounded q' e' units') (hle : q ≤ q') :
    (units : ℚ) * 2 ^ e ≤ units' * 2 ^ e' := by
  rcases (h.exponent.le h'.exponent hle).lt_or_eq with hlt | rfl
  · -- the smaller exponent allows for 53 bits at most, the greater one asks for them
    have hhigh : (units : ℚ) ≤ 2 ^ 53 := by exact_mod_cast h.units_le
    have hlow : (2 : ℚ) ^ 52 ≤ units' := by
      rcases h'.units_ge with hge | hleast
      · exact_mod_cast hge
      · have hleast' := h.exponent.least
        omega
    have hpow : (2 : ℚ) ^ (e + 1) ≤ 2 ^ e' := zpow_le_zpow_right₀ one_le_two hlt
    calc (units : ℚ) * 2 ^ e ≤ 2 ^ 53 * 2 ^ e := by gcongr
      _ = 2 ^ 52 * 2 ^ (e + 1) := by
          rw [zpow_add₀ two_ne_zero]
          ring
      _ ≤ units' * 2 ^ e' := by gcongr
  · -- at one exponent the units are compared
    have hpow : (0 : ℚ) < 2 ^ e := by positivity
    have hunits : (units : ℚ) ≤ units' := by
      exact_mod_cast h.nearest.le h'.nearest (by gcongr)
    gcongr

/-- Rounding keeps the order. -/
theorem toRat_le_of_round? {num' den' : Nat} {y : Binary64} (hnum : 0 < num) (hden : 0 < den)
    (hden' : 0 < den') (h : round? num den = some x) (h' : round? num' den' = some y)
    (hle : (num : ℚ) / den ≤ num' / den') : x.toRat ≤ y.toRat := by
  -- the greater number is above zero, like the lesser one
  have hnum' : 0 < num' := by
    by_contra hzero
    obtain rfl : num' = 0 := by omega
    have hpos : (0 : ℚ) < num / den := by positivity
    simp only [Nat.cast_zero, zero_div] at hle
    linarith
  obtain ⟨e, units, hrounded, hvalue⟩ := exists_of_round? hnum hden h
  obtain ⟨e', units', hrounded', hvalue'⟩ := exists_of_round? hnum' hden' h'
  rw [hvalue, hvalue']
  exact hrounded.value_le hrounded' hle

/-- Numbers from here on are rounded to no double: half a unit above the largest one. -/
def overflow : ℚ := (2 ^ 54 - 1) * 2 ^ (970 : Int)

/-- What is below the overflow is rounded to a double. -/
theorem exists_of_lt_overflow (hnum : 0 < num) (hden : 0 < den)
    (h : (num : ℚ) / den < overflow) : ∃ x, round? num den = some x := by
  obtain ⟨e, units, hrounded, hround⟩ := exists_rounded hnum hden
  -- the overflow is half a unit above the largest number of units at the greatest exponent
  have hlimit : overflow = (2 ^ 53 - 1 / 2) * 2 ^ (971 : Int) := by
    rw [overflow, show (971 : Int) = 1 + 970 by rfl, zpow_add₀ two_ne_zero, ← mul_assoc]
    norm_num
  -- the exponent is at most that of the largest double, and there the units do not carry
  have hexponent : e ≤ 971 := by
    rcases hrounded.exponent.ge with hge | rfl
    · have hpow : (2 : ℚ) ^ (e + 52) < 2 ^ (1024 : Int) := by
        calc (2 : ℚ) ^ (e + 52) ≤ num / den := hge
          _ < overflow := h
          _ < 2 ^ (54 : Int) * 2 ^ (970 : Int) := by
              unfold overflow
              gcongr
              norm_num
          _ = 2 ^ (1024 : Int) := (zpow_add₀ two_ne_zero _ _).symm
      have hlt := (zpow_lt_zpow_iff_right₀ (one_lt_two : (1 : ℚ) < 2)).mp hpow
      omega
    · omega
  -- there the number is more than half a unit below the carry, so it is rounded to less
  have hunits : e = 971 → units < 2 ^ 53 := by
    rintro rfl
    have hlow := hrounded.nearest.low
    have hlt : (num : ℚ) / den / 2 ^ (971 : Int) < 2 ^ 53 - 1 / 2 := by
      rw [div_lt_iff₀ (by positivity), ← hlimit]
      exact h
    have hcast : (units : ℚ) < 2 ^ 53 := by linarith
    exact_mod_cast hcast
  -- so the rank is one of a finite double
  have hrank : rankOf e units < count := by
    have hle := hrounded.units_le
    unfold rankOf binade count
    omega
  exact ⟨⟨rankOf e units, hrank⟩, by rw [hround, ofRank?, dif_pos hrank]⟩

/-- What has at most 53 bits is rounded to itself. -/
theorem toRat_of_round?_exact (hnum : 0 < num) (hden : 0 < den) (h : round? num den = some x)
    {value : Nat} {e : Int} (hvalue : value ≤ 2 ^ 53) (hleast : -1074 ≤ e)
    (hexact : (num : ℚ) / den = value * 2 ^ e) : x.toRat = num / den := by
  obtain ⟨e', units, hrounded, hround⟩ := exists_of_round? hnum hden h
  -- the value is a whole number of units of the exponent that is found
  have hwhole : ∃ whole : Nat, (num : ℚ) / den / 2 ^ e' = whole := by
    rcases le_or_gt e' e with hle | hlt
    · -- the exponent that is found is less, so the value is a multiple of its unit
      refine ⟨value * 2 ^ (e - e').toNat, ?_⟩
      have hpow : (2 : ℚ) ^ e = 2 ^ (e - e').toNat * 2 ^ e' := by
        rw [← zpow_natCast, ← zpow_add₀ two_ne_zero]
        congr 1
        omega
      rw [hexact, hpow, ← mul_assoc, mul_div_cancel_right₀ _ (by positivity)]
      norm_cast
    · -- otherwise the value has one bit more than fits
      have hge : (2 : ℚ) ^ (e' + 52) ≤ value * 2 ^ e := by
        rw [← hexact]
        rcases hrounded.exponent.ge with hge | rfl
        · exact hge
        · omega
      have hle : (value : ℚ) * 2 ^ e ≤ 2 ^ (e + 53) := by
        have hcast : (value : ℚ) ≤ 2 ^ 53 := by exact_mod_cast hvalue
        rw [zpow_add₀ two_ne_zero, mul_comm]
        gcongr
        exact_mod_cast hcast
      have hexponent := (zpow_le_zpow_iff_right₀ (one_lt_two : (1 : ℚ) < 2)).mp (hge.trans hle)
      obtain rfl : e' = e + 1 := by omega
      refine ⟨2 ^ 52, ?_⟩
      have hequal : (num : ℚ) / den = 2 ^ (e + 53) := by
        rw [hexact]
        exact le_antisymm hle (by rwa [show e + 1 + 52 = e + 53 by omega] at hge)
      rw [hequal, show e + 53 = 52 + (e + 1) by omega, zpow_add₀ two_ne_zero,
        mul_div_cancel_right₀ _ (by positivity)]
      norm_num
  obtain ⟨whole, hwhole⟩ := hwhole
  -- a whole number is rounded to itself
  have hunits : units = whole := by
    have hnearest := hrounded.nearest
    rw [hwhole] at hnearest
    exact hnearest.eq (isNearest_self whole)
  rw [hround, hunits, ← hwhole, div_mul_cancel₀ _ (by positivity)]

end Binary64

end UpdateFeed
