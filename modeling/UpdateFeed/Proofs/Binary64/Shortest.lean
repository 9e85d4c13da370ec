import UpdateFeed.Binary64.Decimal
import UpdateFeed.Proofs.Binary64.Rounding

/-!
# Shortest decimals

The shortest decimal of a double lies among the numbers that are rounded to the double, so the
double is found again from it.  The search for it always ends with a hit, at 17 digits at the
latest: there the unit of the grid is less than what the numbers around the double span.

- `Covers`: the numbers that are rounded to a double.
- `round?_of_covers`: they are.
- `exists_neighbour?`: a grid that is fine enough has one of them.
- `shortest_spec`: the shortest decimal is one of them, and has no more than 18 digits.
- `eq_of_toRat_shortest`: different doubles have different shortest decimals.
-/

namespace UpdateFeed

namespace Binary64

/-! ## §1 Numbers around a double -/

/-- How many quarters of a unit belong to a double below it: one at a power of two, above the least
exponent, and else two. -/
def below (x : Binary64) : Nat :=
  if x.significand = binade ∧ -1074 < x.exponent then 1 else 2

/-- The least number that may be rounded to a double. -/
def lower (x : Binary64) : ℚ := (4 * x.significand - x.below : ℚ) * 2 ^ (x.exponent - 2)

/-- The greatest number that may be rounded to a double. -/
def upper (x : Binary64) : ℚ := (4 * x.significand + 2 : ℚ) * 2 ^ (x.exponent - 2)

/-- The numbers that are rounded to a double: the ends are among them if its significand is even. -/
structure Covers (x : Binary64) (q : ℚ) : Prop where
  low : x.lower ≤ q
  high : q ≤ x.upper
  even : q = x.lower ∨ q = x.upper → x.significand % 2 = 0

variable {x : Binary64} {q : ℚ}

theorem quarter_eq (e : Int) : (2 : ℚ) ^ (e - 2) = 2 ^ e / 4 := by
  rw [zpow_sub₀ two_ne_zero]
  norm_num

theorem lower_eq (x : Binary64) : x.lower = (x.significand - x.below / 4) * 2 ^ x.exponent := by
  rw [lower, quarter_eq]
  ring

theorem upper_eq (x : Binary64) : x.upper = (x.significand + 1 / 2) * 2 ^ x.exponent := by
  rw [upper, quarter_eq]
  ring

/-- Between the ends every number is rounded to the double. -/
theorem Covers.of_lt (hlow : x.lower < q) (hhigh : q < x.upper) : x.Covers q where
  low := hlow.le
  high := hhigh.le
  even := by
    rintro (heq | heq)
    · exact absurd heq hlow.ne'
    · exact absurd heq hhigh.ne

/-- At a power of two, numbers below the double have an exponent less by one, and carry. -/
theorem Covers.rounded_carry (h : x.Covers q) (hpower : x.significand = binade)
    (hexponent : -1074 < x.exponent) (hlt : q < 2 ^ (x.exponent + 52)) :
    Rounded q (x.exponent - 1) (2 ^ 53) := by
  have hbelow : x.below = 1 := if_pos ⟨hpower, hexponent⟩
  have hpow : (0 : ℚ) < 2 ^ (x.exponent - 1) := by positivity
  -- a quarter of a unit is half a unit of the exponent below
  have hdouble : (2 : ℚ) ^ x.exponent = 2 * 2 ^ (x.exponent - 1) := by
    rw [zpow_sub₀ two_ne_zero]
    norm_num
    ring
  -- from below, a quarter of a unit is what rounds up to the double
  have hlow : ((2 ^ 53 : Nat) - 1 / 2 : ℚ) * 2 ^ (x.exponent - 1) ≤ q := by
    have hlow := h.low
    rw [lower_eq, hpower, hbelow, hdouble] at hlow
    calc ((2 ^ 53 : Nat) - 1 / 2 : ℚ) * 2 ^ (x.exponent - 1)
        = ((binade : Nat) - (1 : Nat) / 4) * (2 * 2 ^ (x.exponent - 1)) := by
          rw [← mul_assoc]
          congr 1
          norm_num [binade]
      _ ≤ q := hlow
  -- from above, the number is less than the power of two itself
  have hhigh : q < (2 ^ 53 : Nat) * 2 ^ (x.exponent - 1) := by
    refine hlt.trans_eq ?_
    rw [show x.exponent + 52 = 53 + (x.exponent - 1) by omega, zpow_add₀ two_ne_zero]
    norm_num
  -- `2 ^ 53` is even, so nothing is asked at the end of the interval
  refine ⟨⟨by omega, ?_, .inl ?_⟩, ⟨?_, ?_, fun _ => by decide⟩⟩
  · rwa [show x.exponent - 1 + 53 = x.exponent + 52 by omega]
  · refine le_trans ?_ hlow
    rw [zpow_add₀ two_ne_zero, mul_comm]
    gcongr
    norm_num
  · rwa [le_div_iff₀ hpow]
  · rw [div_le_iff₀ hpow]
    refine hhigh.le.trans ?_
    gcongr
    norm_num

/-- Elsewhere the numbers around a double have its exponent. -/
theorem Covers.rounded_own (h : x.Covers q)
    (hge : 2 ^ (x.exponent + 52) ≤ q ∨ x.significand ≠ binade ∨ x.exponent = -1074) :
    Rounded q x.exponent x.significand := by
  have hpow : (0 : ℚ) < 2 ^ x.exponent := by positivity
  have hsignificand : (x.significand : ℚ) + 1 ≤ 2 ^ 53 := by exact_mod_cast x.significand_lt
  have hlow := h.low
  have hhigh := h.high
  rw [lower_eq] at hlow
  rw [upper_eq] at hhigh
  have hbelow : (x.below : ℚ) = 1 ∨ (x.below : ℚ) = 2 := by
    unfold below
    split
    · exact .inl Nat.cast_one
    · exact .inr rfl
  -- either way the number is no more than half a unit below the double
  have hlow' : (x.significand - 1 / 2 : ℚ) * 2 ^ x.exponent ≤ q := by
    refine le_trans (mul_le_mul_of_nonneg_right ?_ hpow.le) hlow
    rcases hbelow with hbelow | hbelow <;> linarith
  refine ⟨⟨x.exponent_ge, ?_, ?_⟩, ⟨?_, ?_, ?_⟩⟩
  · rw [zpow_add₀ two_ne_zero, mul_comm]
    calc q ≤ (x.significand + 1 / 2) * 2 ^ x.exponent := hhigh
      _ < 2 ^ (53 : Int) * 2 ^ x.exponent := by
          gcongr
          have hcast : (2 : ℚ) ^ (53 : Int) = 2 ^ 53 := rfl
          linarith
  · rcases hge with hge | hne | hleast
    · exact .inl hge
    · rcases x.significand_ge with hge | hleast
      · -- the significand is more than the least one of 53 bits
        have hmore : 2 ^ 52 + 1 ≤ x.significand := by
          unfold binade at hne
          omega
        have hmore : (2 : ℚ) ^ 52 + 1 ≤ x.significand := by exact_mod_cast hmore
        left
        rw [zpow_add₀ two_ne_zero, mul_comm]
        refine le_trans (mul_le_mul_of_nonneg_right ?_ hpow.le) hlow'
        have hcast : (2 : ℚ) ^ (52 : Int) = 2 ^ 52 := rfl
        linarith
      · exact .inr hleast
    · exact .inr hleast
  · rwa [le_div_iff₀ hpow]
  · rwa [div_le_iff₀ hpow]
  · rw [div_eq_iff hpow.ne', div_eq_iff hpow.ne']
    -- a number half a unit away is an end of the interval, so the significand is even
    rintro (hend | hend)
    · rcases hbelow with hbelow | hbelow
      · -- the lower end is nearer than half a unit
        rw [hbelow, hend] at hlow
        have hless := le_of_mul_le_mul_right hlow hpow
        linarith
      · refine h.even (.inl ?_)
        rw [hend, lower_eq, hbelow]
        norm_num
    · refine h.even (.inr ?_)
      rw [hend, upper_eq]

/-- The numbers around a double are rounded to it. -/
theorem round?_of_covers {num den : Nat} (hnum : 0 < num) (hden : 0 < den)
    (h : x.Covers (num / den)) : round? num den = some x := by
  -- only below a power of two the exponent is not that of the double
  by_cases hcarry : x.significand = binade ∧ -1074 < x.exponent
      ∧ (num : ℚ) / den < 2 ^ (x.exponent + 52)
  · obtain ⟨hpower, hexponent, hlt⟩ := hcarry
    -- a carry gives the rank of the double all the same
    have hrank : x.rank = rankOf (x.exponent - 1) (2 ^ 53) := by
      rw [rank_eq, hpower]
      unfold rankOf binade
      omega
    rw [round?_eq hnum hden (h.rounded_carry hpower hexponent hlt), ← hrank, ofRank?_rank]
  · have hge : 2 ^ (x.exponent + 52) ≤ (num : ℚ) / den ∨ x.significand ≠ binade
        ∨ x.exponent = -1074 := by
      by_contra hnone
      simp only [not_or, not_le, not_not] at hnone
      obtain ⟨hlt, hpower, hexponent⟩ := hnone
      exact hcarry ⟨hpower, lt_of_le_of_ne x.exponent_ge (Ne.symm hexponent), hlt⟩
    rw [round?_eq hnum hden (h.rounded_own hge), ← rank_eq, ofRank?_rank]

theorem lower_lt_toRat (x : Binary64) : x.lower < x.toRat := by
  have hbelow : (0 : ℚ) < x.below := by
    unfold below
    split <;> norm_num
  rw [lower_eq, toRat]
  exact mul_lt_mul_of_pos_right (by linarith) (by positivity)

theorem toRat_lt_upper (x : Binary64) : x.toRat < x.upper := by
  rw [upper_eq, toRat]
  exact mul_lt_mul_of_pos_right (by linarith) (by positivity)

/-- The numbers around a double are not beyond the overflow. -/
theorem upper_le_overflow (x : Binary64) : x.upper ≤ overflow := by
  -- the greatest exponent of a rank, with the largest significand
  have hexponent : x.exponent ≤ 971 := by
    have hrank := x.rank_lt
    unfold count at hrank
    unfold exponent binade
    split <;> omega
  have hsignificand : (x.significand : ℚ) + 1 ≤ 2 ^ 53 := by exact_mod_cast x.significand_lt
  have hpow : (2 : ℚ) ^ x.exponent ≤ 2 ^ (971 : Int) := zpow_le_zpow_right₀ one_le_two hexponent
  calc x.upper = (x.significand + 1 / 2) * 2 ^ x.exponent := x.upper_eq
    _ ≤ (2 ^ 53 - 1 / 2) * 2 ^ (971 : Int) :=
        mul_le_mul (by linarith) hpow (by positivity) (by norm_num)
    _ = overflow := by
        rw [overflow, show (971 : Int) = 1 + 970 by rfl, zpow_add₀ two_ne_zero, ← mul_assoc]
        norm_num

/-- Every double is below the overflow. -/
theorem toRat_lt_overflow (x : Binary64) : x.toRat < overflow :=
  x.toRat_lt_upper.trans_le (upper_le_overflow x)

theorem significand_pos (hx : x.isZero = false) : 0 < x.significand := by
  have hrank : x.rank ≠ 0 := by simpa [isZero] using hx
  unfold significand binade
  split <;> omega

/-- The numbers around a double above zero are no less than half the least double above zero. -/
theorem lower_ge (hx : x.isZero = false) : 2 ^ (-1075 : Int) ≤ x.lower := by
  have hsignificand : (1 : ℚ) ≤ x.significand := by exact_mod_cast significand_pos hx
  -- at most half a unit is taken off at least one unit of the least exponent
  have hbelow : (x.below : ℚ) ≤ 2 := by
    unfold below
    split <;> norm_num
  have hpow : (2 : ℚ) ^ (-1074 : Int) ≤ 2 ^ x.exponent :=
    zpow_le_zpow_right₀ one_le_two x.exponent_ge
  calc (2 : ℚ) ^ (-1075 : Int) = 1 / 2 * 2 ^ (-1074 : Int) := by
        rw [show (-1075 : Int) = -1 + -1074 by rfl, zpow_add₀ two_ne_zero]
        norm_num
    _ ≤ (x.significand - x.below / 4) * 2 ^ x.exponent :=
        mul_le_mul (by linarith) hpow (by positivity) (by linarith)
    _ = x.lower := x.lower_eq.symm

/-! ## §2 Grids of decimals -/

theorem interval_den_pos (x : Binary64) : 0 < x.interval.den :=
  scale_pos _ _

/-- The ends of the interval of a double, and its value. -/
theorem interval_spec (hx : x.isZero = false) :
    (x.interval.low : ℚ) / x.interval.den = x.lower
      ∧ (x.interval.value : ℚ) / x.interval.den = x.toRat
      ∧ (x.interval.high : ℚ) / x.interval.den = x.upper := by
  have hpos := significand_pos hx
  have hbelow : x.below ≤ 4 * x.significand := by
    unfold below
    split <;> omega
  -- all three have the same denominator
  have hden : ∀ quarters, x.interval.den = (scale quarters (x.exponent - 2)).2 := by
    intro quarters
    show (scale (4 * x.significand) (x.exponent - 2)).2 = _
    cases x.exponent - 2 <;> rfl
  -- the quarters below, at and above the double, scaled by the exponent
  refine ⟨?_, ?_, ?_⟩
  · rw [hden (4 * x.significand - x.below)]
    refine (scale_eq _ _).trans ?_
    show ((4 * x.significand - x.below : Nat) : ℚ) * _ = _
    rw [lower, Nat.cast_sub hbelow]
    norm_num
  · rw [hden (4 * x.significand)]
    refine (scale_eq _ _).trans ?_
    rw [toRat, quarter_eq]
    push_cast
    ring
  · rw [hden (4 * x.significand + 2)]
    refine (scale_eq _ _).trans ?_
    rw [upper]
    norm_num

/-- An interval over a greater denominator. -/
def Interval.scaled (i : Interval) (factor : Nat) : Interval where
  low := i.low * factor
  value := i.value * factor
  high := i.high * factor
  den := i.den * factor
  closed := i.closed

/-- The better of the two neighbours of a value on a grid, as `onGrid?` takes it: the unit of the
grid is `unit / (i.den * factor)`. -/
def neighbour? (i : Interval) (unit factor : Nat) (power : Int) : Option Decimal :=
  let down := (i.scaled factor).value / unit
  let up := down + 1
  let rest := (i.scaled factor).value % unit
  match down != 0 && (i.scaled factor).contains (down * unit),
      (i.scaled factor).contains (up * unit) with
  | true, true =>
    if 2 * rest < unit ∨ (2 * rest = unit ∧ down % 2 = 0) then some ⟨down, power⟩
    else some ⟨up, power⟩
  | true, false => some ⟨down, power⟩
  | false, true => some ⟨up, power⟩
  | false, false => none

/-- The unit of a grid over the denominator of an interval. -/
structure IsUnit (i : Interval) (power : Int) (unit factor : Nat) : Prop where
  unit_pos : 0 < unit
  factor_pos : 0 < factor
  unit_eq : (unit : ℚ) = 10 ^ power * (i.den * factor : Nat)

/-- A quotient of natural numbers, between whole numbers. -/
theorem quotient_spec (num : Nat) {den : Nat} (hden : 0 < den) :
    ((num / den : Nat) : ℚ) ≤ num / den ∧ (num : ℚ) / den < (num / den : Nat) + 1 := by
  have hdenQ : (0 : ℚ) < den := by exact_mod_cast hden
  rw [le_div_iff₀ hdenQ, div_lt_iff₀ hdenQ]
  constructor
  · exact_mod_cast Nat.div_mul_le_self num den
  · exact_mod_cast Nat.lt_mul_of_div_lt (Nat.lt_succ_self (num / den)) hden

/-- What a number of the interval is over the denominator of the grid. -/
theorem cast_mul_factor {i : Interval} (hden : 0 < i.den) {num : Nat} {value : ℚ}
    (h : (num : ℚ) / i.den = value) (factor : Nat) :
    ((num * factor : Nat) : ℚ) = value * (i.den * factor : Nat) := by
  have hdenQ : (0 : ℚ) < i.den := by exact_mod_cast hden
  subst h
  push_cast
  field_simp

theorem exists_onGrid?_eq (i : Interval) (hden : 0 < i.den) (power : Int) :
    ∃ unit factor, IsUnit i power unit factor
      ∧ onGrid? i power = neighbour? i unit factor power := by
  -- the power of ten is a factor of the unit, or of all that is compared with it
  cases power with
  | ofNat k =>
    refine ⟨i.den * Nat.pow 10 k, 1, ⟨Nat.mul_pos hden (Nat.pow_pos (by decide)), Nat.one_pos, ?_⟩,
      rfl⟩
    rw [Int.ofNat_eq_natCast, zpow_natCast, Nat.mul_one, mul_comm]
    norm_cast
  | negSucc k =>
    refine ⟨i.den, Nat.pow 10 (k + 1), ⟨hden, Nat.pow_pos (by decide), ?_⟩, rfl⟩
    rw [zpow_negSucc, mul_comm, Nat.cast_mul, mul_assoc]
    have hpow : ((Nat.pow 10 (k + 1) : Nat) : ℚ) = 10 ^ (k + 1) := by norm_cast
    rw [hpow, mul_inv_cancel₀ (by positivity), mul_one]

section Grid

variable {power : Int} {unit factor : Nat}

/-- A point of a grid is in the interval of a double when it is among the numbers around it. -/
theorem contains_iff (hx : x.isZero = false) (h : IsUnit x.interval power unit factor) (n : Nat) :
    (x.interval.scaled factor).contains (n * unit) = true ↔ x.Covers (n * 10 ^ power) := by
  obtain ⟨hlow, -, hhigh⟩ := interval_spec hx
  have hden : (0 : ℚ) < (x.interval.den * factor : Nat) := by
    exact_mod_cast Nat.mul_pos (interval_den_pos x) h.factor_pos
  -- points and ends are multiples of one common denominator
  have hpoint : ((n * unit : Nat) : ℚ) = n * 10 ^ power * (x.interval.den * factor : Nat) := by
    rw [Nat.cast_mul, h.unit_eq, mul_assoc]
  have hlow := cast_mul_factor (interval_den_pos x) hlow factor
  have hhigh := cast_mul_factor (interval_den_pos x) hhigh factor
  -- what is compared without fractions is compared over the common denominator
  have hle : ∀ {a b : Nat} {p q : ℚ}, (a : ℚ) = p * (x.interval.den * factor : Nat) →
      (b : ℚ) = q * (x.interval.den * factor : Nat) → (a ≤ b ↔ p ≤ q) ∧ (a < b ↔ p < q) := by
    intro a b p q ha hb
    rw [← mul_le_mul_iff_left₀ hden, ← mul_lt_mul_iff_left₀ hden, ← ha, ← hb]
    norm_cast
  have hlow' := hle hlow hpoint
  have hhigh' := hle hpoint hhigh
  have hclosed : (x.interval.scaled factor).closed = decide (x.significand % 2 = 0) := rfl
  unfold Interval.contains
  rw [hclosed]
  -- a closed interval has its ends, and an open one does not
  by_cases heven : x.significand % 2 = 0
  · rw [if_pos (decide_eq_true heven), Bool.and_eq_true, decide_eq_true_iff, decide_eq_true_iff]
    exact ⟨fun ⟨hl, hh⟩ => ⟨hlow'.1.mp hl, hhigh'.1.mp hh, fun _ => heven⟩,
      fun h => ⟨hlow'.1.mpr h.low, hhigh'.1.mpr h.high⟩⟩
  · -- an end is no hit, and with an odd significand it is not rounded to the double either
    rw [if_neg (by simpa using heven), Bool.and_eq_true, decide_eq_true_iff, decide_eq_true_iff]
    constructor
    · rintro ⟨hl, hh⟩
      exact .of_lt (hlow'.2.mp hl) (hhigh'.2.mp hh)
    · intro h
      exact ⟨hlow'.2.mpr (lt_of_le_of_ne h.low fun heq => heven (h.even (.inl heq.symm))),
        hhigh'.2.mpr (lt_of_le_of_ne h.high fun heq => heven (h.even (.inr heq)))⟩

/-- The neighbour below a value on a grid is the value in whole units. -/
theorem floor_spec (hx : x.isZero = false) (h : IsUnit x.interval power unit factor) :
    (((x.interval.scaled factor).value / unit : Nat) : ℚ) * 10 ^ power ≤ x.toRat
      ∧ x.toRat < (((x.interval.scaled factor).value / unit : Nat) + 1) * 10 ^ power := by
  obtain ⟨-, hvalue, -⟩ := interval_spec hx
  have hden : (0 : ℚ) < (x.interval.den * factor : Nat) := by
    exact_mod_cast Nat.mul_pos (interval_den_pos x) h.factor_pos
  have hten : (0 : ℚ) < 10 ^ power := by positivity
  -- the common denominator cancels in the quotient
  have hratio : ((x.interval.scaled factor).value : ℚ) / unit = x.toRat / 10 ^ power := by
    rw [h.unit_eq, ← mul_div_mul_right x.toRat (10 ^ power) hden.ne',
      ← cast_mul_factor (interval_den_pos x) hvalue factor]
    rfl
  obtain ⟨hfloor, hceil⟩ := quotient_spec (x.interval.scaled factor).value h.unit_pos
  rw [hratio] at hfloor hceil
  exact ⟨(le_div_iff₀ hten).mp hfloor, (div_lt_iff₀ hten).mp hceil⟩

/-- What is taken on a grid is among the numbers around the double, and one of the neighbours. -/
theorem neighbour?_spec (hx : x.isZero = false) (h : IsUnit x.interval power unit factor)
    {d : Decimal} (hd : neighbour? x.interval unit factor power = some d) :
    d.exponent = power ∧ d.digits ≠ 0 ∧ x.Covers (d.digits * 10 ^ power)
      ∧ d.digits ≤ (x.interval.scaled factor).value / unit + 1 := by
  unfold neighbour? at hd
  dsimp only at hd
  have hcovers := contains_iff hx h
  generalize (x.interval.scaled factor).value / unit = down at hd ⊢
  generalize (x.interval.scaled factor).value % unit = rest at hd
  -- a hit on either side is among the numbers around the double
  have hdown : (down != 0 && (x.interval.scaled factor).contains (down * unit)) = true →
      down ≠ 0 ∧ x.Covers (down * 10 ^ power) := by
    intro hhit
    rw [Bool.and_eq_true, bne_iff_ne] at hhit
    exact ⟨hhit.1, (hcovers down).mp hhit.2⟩
  have hup := (hcovers (down + 1)).mp
  -- the cases of the search: both neighbours hit, one of them, or none
  split at hd
  · rename_i hhit hhit'
    split at hd
    · obtain rfl := Option.some.inj hd
      exact ⟨rfl, (hdown hhit).1, (hdown hhit).2, Nat.le_succ _⟩
    · obtain rfl := Option.some.inj hd
      exact ⟨rfl, Nat.succ_ne_zero _, hup hhit', le_rfl⟩
  · rename_i hhit _
    obtain rfl := Option.some.inj hd
    exact ⟨rfl, (hdown hhit).1, (hdown hhit).2, Nat.le_succ _⟩
  · rename_i _ hhit'
    obtain rfl := Option.some.inj hd
    exact ⟨rfl, Nat.succ_ne_zero _, hup hhit', le_rfl⟩
  · cases hd

/-- Where the numbers around a double span more than a unit, and the value is no less than one, a
neighbour is taken. -/
theorem exists_neighbour? (hx : x.isZero = false) (h : IsUnit x.interval power unit factor)
    (hunit : 10 ^ power ≤ x.toRat) (hspan : 10 ^ power < x.upper - x.lower) :
    ∃ d, neighbour? x.interval unit factor power = some d := by
  obtain ⟨hfloor, hceil⟩ := floor_spec hx h
  have hcovers := contains_iff hx h
  have hlower := x.lower_lt_toRat
  have hupper := x.toRat_lt_upper
  unfold neighbour?
  dsimp only
  generalize (x.interval.scaled factor).value / unit = down at hfloor hceil ⊢
  -- the neighbour below is not zero, since the value is no less than a unit
  have hdown : down ≠ 0 := by
    rintro rfl
    rw [Nat.cast_zero, zero_add, one_mul] at hceil
    exact absurd hunit (not_le.mpr hceil)
  -- the two neighbours are a unit apart, which is less than the interval
  rcases lt_or_ge x.lower (down * 10 ^ power) with hlt | hge
  · have hhit : x.Covers (down * 10 ^ power) := .of_lt hlt (by linarith)
    rw [(hcovers down).mpr hhit, Bool.and_true, bne_iff_ne.mpr hdown]
    split
    · split <;> exact ⟨_, rfl⟩
    · exact ⟨_, rfl⟩
    · contradiction
    · contradiction
  · -- the neighbour below is too far away, so the one above is not
    have hhit : x.Covers ((down + 1 : Nat) * 10 ^ power) := by
      rw [Nat.cast_succ]
      exact .of_lt (by linarith) (by linarith)
    rw [(hcovers (down + 1)).mpr hhit]
    split
    · split <;> exact ⟨_, rfl⟩
    · exact ⟨_, rfl⟩
    · exact ⟨_, rfl⟩
    · contradiction

end Grid

/-! ## §3 The search -/

/-- The numbers around a double span more than `1 / 10 ^ 16` of it. -/
theorem span_lt (x : Binary64) : x.toRat / 10 ^ 16 < x.upper - x.lower := by
  have hpow : (0 : ℚ) < 2 ^ x.exponent := by positivity
  have hsignificand : (x.significand : ℚ) ≤ 2 ^ 53 := by exact_mod_cast x.significand_lt.le
  have hspan : x.upper - x.lower = (1 / 2 + x.below / 4) * 2 ^ x.exponent := by
    rw [upper_eq, lower_eq]
    ring
  -- the exponent cancels, and what is left of the double has less than 16 digits
  rw [hspan, toRat, mul_comm, mul_div_assoc, mul_comm]
  refine mul_lt_mul_of_pos_right ?_ hpow
  rw [div_lt_iff₀ (by positivity)]
  unfold below
  split
  · -- at a power of two the span is three quarters of a unit, but the significand is the least one
    rename_i hpower
    rw [hpower.1, binade]
    norm_num
  · refine hsignificand.trans_lt ?_
    norm_num

/-- The number of digits of a number above zero. -/
theorem length_spec {n : Nat} (h : 0 < n) :
    10 ^ (Decimal.length n - 1) ≤ n ∧ n < 10 ^ Decimal.length n ∧ 0 < Decimal.length n := by
  have hlength : 0 < Decimal.length n := Nat.length_toDigits_pos
  refine ⟨?_, (Nat.length_toDigits_le_iff (by decide) hlength).mp le_rfl, hlength⟩
  -- no number is below the power of ten of one digit less, which is 1 for a single digit
  rcases Nat.eq_zero_or_pos (Decimal.length n - 1) with hone | hmore
  · rw [hone]
    exact h
  · by_contra hlt
    have hle := (Nat.length_toDigits_le_iff (by decide) hmore).mpr (not_le.mp hlt)
    unfold Decimal.length at hle hmore
    omega

theorem fraction_eq (x : Binary64) : (x.fraction.1 : ℚ) / x.fraction.2 = x.toRat :=
  scale_eq _ _

theorem fraction_den_pos (x : Binary64) : 0 < x.fraction.2 :=
  scale_pos _ _

theorem toRat_nonneg (x : Binary64) : 0 ≤ x.toRat := by
  unfold toRat
  positivity

theorem toRat_pos (hx : x.isZero = false) : 0 < x.toRat := by
  have hpos : (0 : ℚ) < x.significand := by exact_mod_cast significand_pos hx
  unfold toRat
  positivity

theorem fraction_num_pos (h : 0 < x.toRat) : 0 < x.fraction.1 := by
  rcases Nat.eq_zero_or_pos x.fraction.1 with hzero | hpos
  · rw [← fraction_eq, hzero, Nat.cast_zero, zero_div] at h
    exact absurd h (lt_irrefl 0)
  · exact hpos

/-- Where a double lies among the powers of ten, seen from where the search starts. -/
theorem leadingPower_spec (hx : x.isZero = false) : ∃ steps : Nat, steps < 20
    ∧ (10 : ℚ) ^ (x.leadingPower + 1 - steps + 16) ≤ x.toRat
    ∧ x.toRat ≤ 10 ^ (x.leadingPower + 1 - steps + 17) := by
  have hden := x.fraction_den_pos
  have hnum := fraction_num_pos (toRat_pos hx)
  rw [← x.fraction_eq]
  unfold leadingPower
  generalize x.fraction = fraction at hden hnum
  obtain ⟨num, den⟩ := fraction
  dsimp only at hden hnum ⊢
  split
  · -- at least one: the digits of the whole part
    rename_i hle
    obtain ⟨hfloor, hceil⟩ := quotient_spec num hden
    obtain ⟨hlow, hhigh, hlength⟩ := length_spec (Nat.div_pos hle hden)
    generalize Decimal.length (num / den) = digits at hlow hhigh hlength ⊢
    refine ⟨17, by decide, ?_, ?_⟩
    · rw [show (digits : Int) - 1 + 1 - (17 : Nat) + 16 = (digits - 1 : Nat) by omega, zpow_natCast]
      exact le_trans (by exact_mod_cast hlow) hfloor
    · rw [show (digits : Int) - 1 + 1 - (17 : Nat) + 17 = digits by omega, zpow_natCast]
      exact hceil.le.trans (by exact_mod_cast hhigh)
  · -- less than one: the digits of the inverse
    rename_i hlt
    have hlt := not_le.mp hlt
    obtain ⟨hfloor, hceil⟩ := quotient_spec den hnum
    obtain ⟨hlow, hhigh, hlength⟩ := length_spec (Nat.div_pos hlt.le hnum)
    generalize Decimal.length (den / num) = digits at hlow hhigh hlength ⊢
    refine ⟨18, by decide, ?_, ?_⟩
    · rw [show -(digits : Int) + 1 + 1 - (18 : Nat) + 16 = -(digits : Int) by omega, zpow_neg,
        zpow_natCast, ← inv_div]
      refine inv_anti₀ (by positivity) (hceil.le.trans ?_)
      exact_mod_cast hhigh
    · rw [show -(digits : Int) + 1 + 1 - (18 : Nat) + 17 = -((digits - 1 : Nat) : Int) by omega,
        zpow_neg, zpow_natCast, ← inv_div]
      refine inv_anti₀ (by positivity) (le_trans ?_ hfloor)
      exact_mod_cast hlow

/-- A search finds something on the first grid with a hit. -/
theorem searchGrids_spec {i : Interval} {fuel steps : Nat} {power : Int} (hsteps : steps < fuel)
    (h : ∃ d, onGrid? i (power - steps) = some d) :
    ∃ taken ≤ steps, ∃ d, onGrid? i (power - taken) = some d
      ∧ searchGrids i fuel power = some d := by
  induction fuel generalizing steps power with
  | zero => omega
  | succ fuel ih =>
    unfold searchGrids
    cases hfirst : onGrid? i power with
    -- a hit on the grid at hand is taken
    | some d =>
      refine ⟨0, Nat.zero_le _, d, ?_, rfl⟩
      rwa [Nat.cast_zero, sub_zero]
    | none =>
      -- the hit is on a later grid
      obtain ⟨later, rfl⟩ : ∃ later, steps = later + 1 := by
        cases steps with
        | zero =>
          obtain ⟨d, hd⟩ := h
          rw [Nat.cast_zero, sub_zero, hfirst] at hd
          cases hd
        | succ later => exact ⟨later, rfl⟩
      have hshift : ∀ n : Nat, power - 1 - n = power - (n + 1 : Nat) := fun n => by omega
      obtain ⟨taken, htaken, d, hd, hsearch⟩ := ih (show later < fuel by omega)
        (show ∃ d, onGrid? i (power - 1 - later) = some d by rwa [hshift])
      rw [hshift] at hd
      exact ⟨taken + 1, by omega, d, hd, hsearch⟩

end Binary64

/-- A decimal as a rational number. -/
def Decimal.toRat (d : Decimal) : ℚ := d.digits * 10 ^ d.exponent

theorem Decimal.fraction_eq (d : Decimal) : (d.fraction.1 : ℚ) / d.fraction.2 = d.toRat := by
  obtain ⟨digits, exponent⟩ := d
  cases exponent with
  | ofNat k => simp [fraction, toRat]
  | negSucc k =>
    rw [toRat, zpow_negSucc, ← div_eq_mul_inv]
    simp [fraction]

theorem Decimal.fraction_pos {d : Decimal} (h : d.digits ≠ 0) :
    0 < d.fraction.1 ∧ 0 < d.fraction.2 := by
  obtain ⟨digits, exponent⟩ := d
  have hdigits : 0 < digits := Nat.pos_of_ne_zero h
  cases exponent with
  | ofNat k => exact ⟨Nat.mul_pos hdigits (Nat.pow_pos (by decide)), Nat.one_pos⟩
  | negSucc k => exact ⟨hdigits, Nat.pow_pos (by decide)⟩

/-- Zeros at the end of the digits do not count. -/
theorem Decimal.trim_spec (fuel : Nat) (d : Decimal) : (d.trim fuel).toRat = d.toRat
    ∧ (d.trim fuel).digits ≤ d.digits ∧ ((d.trim fuel).digits = 0 ↔ d.digits = 0) := by
  induction fuel generalizing d with
  | zero => exact ⟨rfl, le_rfl, Iff.rfl⟩
  | succ fuel ih =>
    unfold trim
    split
    · -- a zero at the end goes from the digits into the power of ten
      rename_i hzero
      obtain ⟨hvalue, hle, hiff⟩ := ih ⟨d.digits / 10, d.exponent + 1⟩
      refine ⟨?_, by dsimp only at hle; omega, by dsimp only at hiff; omega⟩
      have hdigits : (d.digits : ℚ) = (d.digits / 10 : Nat) * 10 := by
        exact_mod_cast (Nat.div_mul_cancel (Nat.dvd_of_mod_eq_zero hzero.2)).symm
      rw [hvalue, toRat, toRat, hdigits, zpow_add₀ (by norm_num)]
      ring
    · exact ⟨rfl, le_rfl, Iff.rfl⟩

namespace Binary64

/-- The shortest decimal of a double is among the numbers around it, and has 18 digits at most. -/
theorem shortest_spec {x : Binary64} (hx : x.isZero = false) :
    x.Covers x.shortest.toRat ∧ x.shortest.digits ≠ 0 ∧ x.shortest.digits ≤ 10 ^ 17 + 1 := by
  obtain ⟨steps, hsteps, hlow, hhigh⟩ := leadingPower_spec hx
  have hten : ∀ e : Int, (0 : ℚ) < 10 ^ e := fun e => by positivity
  -- the grid of 17 digits has a hit
  have hhit : ∃ d, onGrid? x.interval (x.leadingPower + 1 - steps) = some d := by
    generalize x.leadingPower + 1 - (steps : Int) = power at hlow
    obtain ⟨unit, factor, hunit, heq⟩ := exists_onGrid?_eq x.interval (interval_den_pos x) power
    rw [zpow_add₀ (by norm_num)] at hlow
    have hpower := hten power
    have hsixteen : (10 : ℚ) ^ (16 : Int) = 10 ^ 16 := rfl
    rw [hsixteen] at hlow
    rw [heq]
    refine exists_neighbour? hx hunit (by linarith) (lt_of_le_of_lt ?_ (span_lt x))
    rwa [le_div_iff₀ (by positivity)]
  obtain ⟨taken, htaken, d, hd, hsearch⟩ := searchGrids_spec hsteps hhit
  -- an earlier hit has fewer digits
  obtain ⟨unit, factor, hunit, heq⟩ :=
    exists_onGrid?_eq x.interval (interval_den_pos x) (x.leadingPower + 1 - taken)
  rw [heq] at hd
  obtain ⟨hexponent, hdigits, hcovers, hbound⟩ := neighbour?_spec hx hunit hd
  obtain ⟨hfloor, -⟩ := floor_spec hx hunit
  -- the zeros at the end are taken off, which keeps the value
  have hshortest : x.shortest = d.trim 25 := by
    unfold shortest
    rw [hx, hsearch]
    rfl
  obtain ⟨hvalue, hle, hiff⟩ := d.trim_spec 25
  rw [hshortest, hvalue]
  refine ⟨?_, fun hzero => hdigits (hiff.mp hzero), hle.trans (hbound.trans ?_)⟩
  · rwa [Decimal.toRat, hexponent]
  · refine Nat.succ_le_succ ?_
    -- the digits are the value in units of a power of ten that is not less than that of the last
    -- grid
    have hmore : (10 : ℚ) ^ (x.leadingPower + 1 - steps + 17) ≤
        10 ^ 17 * 10 ^ (x.leadingPower + 1 - taken) := by
      have hseventeen : (10 : ℚ) ^ (17 : Int) = 10 ^ 17 := rfl
      rw [← hseventeen, ← zpow_add₀ (by norm_num)]
      exact zpow_le_zpow_right₀ (by norm_num) (by omega)
    have hall := (hfloor.trans hhigh).trans hmore
    have hcast := le_of_mul_le_mul_right hall (hten _)
    exact_mod_cast hcast

theorem shortest_zero {x : Binary64} (hx : x.isZero = true) : x.shortest = ⟨0, 0⟩ := by
  unfold shortest
  rw [if_pos hx]

theorem eq_of_isZero {x y : Binary64} (hx : x.isZero = true) (hy : y.isZero = true) : x = y := by
  obtain ⟨rank, hrank⟩ := x
  obtain ⟨rank', hrank'⟩ := y
  have hzero : rank = 0 := by simpa [isZero] using hx
  have hzero' : rank' = 0 := by simpa [isZero] using hy
  subst hzero hzero'
  rfl

/-- A double is found again from the value of its shortest decimal. -/
theorem eq_of_toRat_shortest {x y : Binary64} (h : x.shortest.toRat = y.shortest.toRat) :
    x = y := by
  -- only zero has a decimal without digits
  have hzero : ∀ {z : Binary64}, z.shortest.toRat = 0 ↔ z.isZero = true := by
    intro z
    have hten : (10 : ℚ) ^ z.shortest.exponent ≠ 0 := by positivity
    rw [Decimal.toRat, mul_eq_zero, or_iff_left hten, Nat.cast_eq_zero]
    constructor
    · intro hdigits
      by_contra hz
      exact (shortest_spec (eq_false_of_ne_true hz)).2.1 hdigits
    · intro hz
      rw [shortest_zero hz]
  by_cases hx : x.isZero = true
  · exact eq_of_isZero hx (hzero.mp (h ▸ hzero.mpr hx))
  · have hy : y.isZero ≠ true := fun hy => hx (hzero.mp (h.trans (hzero.mpr hy)))
    -- above zero both doubles are what one number is rounded to
    obtain ⟨hcovers, hdigits, -⟩ := shortest_spec (eq_false_of_ne_true hx)
    have hcovers' := (shortest_spec (eq_false_of_ne_true hy)).1
    rw [← h, ← Decimal.fraction_eq] at hcovers'
    rw [← Decimal.fraction_eq] at hcovers
    have hpos := Decimal.fraction_pos hdigits
    exact Option.some.inj ((round?_of_covers hpos.1 hpos.2 hcovers).symm.trans
      (round?_of_covers hpos.1 hpos.2 hcovers'))

end Binary64

end UpdateFeed
