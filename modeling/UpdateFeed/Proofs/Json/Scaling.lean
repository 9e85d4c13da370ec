import UpdateFeed.Json.Number
import UpdateFeed.Proofs.Binary64.Shortest

/-!
# Scaling by powers of ten

The fast conversion of a literal rounds its digits to a double, and then the product or quotient of
that and a rounded power of ten.  It finds a double for the shortest decimal of every double, though
not always the same one; where the digits and the power are doubles themselves it rounds only once,
and finds the same one.

- `exists_scaleByTens_of_neg`: what is scaled down is a double.
- `exists_scaleByTens_shortest`: so is the shortest decimal of a double.
- `scaleByTens_of_covers`: short decimals find the double that they are rounded to.
-/

namespace UpdateFeed.Json

open Binary64

/-! ## §1 Products and quotients -/

/-- A quotient below the overflow is rounded to a double, zero included. -/
theorem exists_round? (num : Nat) {den : Nat} (hden : 0 < den)
    (h : (num : ℚ) / den < overflow) : ∃ y, round? num den = some y := by
  rcases Nat.eq_zero_or_pos num with rfl | hnum
  · exact ⟨zero, by rw [round?, if_neg hden.ne', if_pos rfl]⟩
  · exact exists_of_lt_overflow hnum hden h

/-- The quotient of numerators and denominators. -/
theorem product_eq (x y : Binary64) :
    ((x.fraction.1 * y.fraction.1 : Nat) : ℚ) / (x.fraction.2 * y.fraction.2 : Nat) =
      x.toRat * y.toRat := by
  rw [← fraction_eq, ← fraction_eq, div_mul_div_comm]
  push_cast
  rfl

theorem quotient_eq (x y : Binary64) :
    ((x.fraction.1 * y.fraction.2 : Nat) : ℚ) / (x.fraction.2 * y.fraction.1 : Nat) =
      x.toRat / y.toRat := by
  rw [← fraction_eq, ← fraction_eq, div_div_div_eq]
  push_cast
  rfl

theorem exists_mul? {x y : Binary64} (h : x.toRat * y.toRat < overflow) :
    ∃ z, x.mul? y = some z := by
  refine exists_round? _ (Nat.mul_pos (fraction_den_pos x) (fraction_den_pos y)) ?_
  rwa [product_eq]

/-- A double divided by one of at least `1` is a double. -/
theorem exists_div? (x : Binary64) {y : Binary64} (hy : 1 ≤ y.toRat) :
    ∃ z, x.div? y = some z := by
  have hpos : 0 < y.toRat := one_pos.trans_le hy
  refine exists_round? _ (Nat.mul_pos (fraction_den_pos x) (fraction_num_pos hpos)) ?_
  rw [quotient_eq]
  exact (div_le_self (toRat_nonneg x) hy).trans_lt (toRat_lt_overflow x)

/-! ## §2 Powers of ten -/

theorem overflow_eq : overflow = ((2 ^ 54 - 1) * 2 ^ 970 : Nat) := by
  have hfactor : ((2 ^ 54 - 1 : Nat) : ℚ) = 2 ^ 54 - 1 := by norm_num
  rw [Nat.cast_mul, Nat.cast_pow, hfactor, Nat.cast_ofNat, ← zpow_natCast]
  rfl

/-- The overflow has 309 digits, and these are the first of them. -/
theorem overflow_div_eq : (2 ^ 54 - 1) * 2 ^ 970 / 10 ^ 292 = 17976931348623158 := by
  decide +kernel

/-- A number of more than `digits` digits before its last `zeros` ones. -/
theorem tenPow_lt_of_lt_div {n digits zeros k : Nat} (h : 10 ^ digits < n / 10 ^ zeros)
    (hk : k ≤ digits + zeros) : 10 ^ k < n := by
  have hzeros : 0 < 10 ^ zeros := Nat.pow_pos (by norm_num)
  calc 10 ^ k ≤ 10 ^ (digits + zeros) := Nat.pow_le_pow_right (by norm_num) hk
    _ = 10 ^ digits * 10 ^ zeros := pow_add 10 digits zeros
    _ < n / 10 ^ zeros * 10 ^ zeros := Nat.mul_lt_mul_of_pos_right h hzeros
    _ ≤ n := Nat.div_mul_le_self n _

/-- A number of at most `digits` digits before its last `zeros` ones. -/
theorem lt_tenPow_of_div_lt {n digits zeros k : Nat} (h : n / 10 ^ zeros < 10 ^ digits)
    (hk : digits + zeros ≤ k) : n < 10 ^ k := by
  have hzeros : 0 < 10 ^ zeros := Nat.pow_pos (by norm_num)
  calc n < 10 ^ digits * 10 ^ zeros := (Nat.div_lt_iff_lt_mul hzeros).mp h
    _ = 10 ^ (digits + zeros) := (pow_add 10 digits zeros).symm
    _ ≤ 10 ^ k := Nat.pow_le_pow_right (by norm_num) hk

theorem tenPow_lt_overflow {k : Nat} (hk : k ≤ 308) : 10 ^ k < (2 ^ 54 - 1) * 2 ^ 970 := by
  have hdigits : 10 ^ 16 < (2 ^ 54 - 1) * 2 ^ 970 / 10 ^ 292 := by
    rw [overflow_div_eq]
    norm_num
  exact tenPow_lt_of_lt_div hdigits hk

theorem overflow_lt_tenPow {k : Nat} (hk : 309 ≤ k) : (2 ^ 54 - 1) * 2 ^ 970 < 10 ^ k := by
  have hdigits : (2 ^ 54 - 1) * 2 ^ 970 / 10 ^ 292 < 10 ^ 17 := by
    rw [overflow_div_eq]
    norm_num
  exact lt_tenPow_of_div_lt hdigits hk

/-- The powers of ten up to `10 ^ 308` are below the overflow. -/
theorem round?_tenPower {k : Nat} (hk : k ≤ 308) : round? (10 ^ k) 1 = some (tenPower k) := by
  have hlt : ((10 ^ k : Nat) : ℚ) / (1 : Nat) < overflow := by
    rw [overflow_eq, Nat.cast_one, div_one]
    exact_mod_cast tenPow_lt_overflow hk
  obtain ⟨x, hx⟩ := exists_of_lt_overflow (Nat.pow_pos (by norm_num)) Nat.one_pos hlt
  have hten : tenPower k = (round? (10 ^ k) 1).getD zero := rfl
  rw [hten, hx]
  rfl

/-- Greater powers of ten are greater doubles. -/
theorem tenPower_le {j k : Nat} (hj : j ≤ k) (hk : k ≤ 308) :
    (tenPower j).toRat ≤ (tenPower k).toRat := by
  apply toRat_le_of_round? (Nat.pow_pos (by norm_num)) Nat.one_pos Nat.one_pos
    (round?_tenPower (hj.trans hk)) (round?_tenPower hk)
  rw [Nat.cast_one, div_one, div_one]
  exact_mod_cast Nat.pow_le_pow_right (by norm_num) hj

/-- The powers of ten up to `10 ^ 22` are doubles. -/
theorem toRat_tenPower {k : Nat} (hk : k ≤ 22) : (tenPower k).toRat = 10 ^ k := by
  have hfive : 5 ^ k ≤ 2 ^ 53 :=
    (Nat.pow_le_pow_right (by norm_num) hk).trans (by norm_num : 5 ^ 22 ≤ 2 ^ 53)
  have hexact : ((10 ^ k : Nat) : ℚ) / (1 : Nat) = (5 ^ k : Nat) * 2 ^ (k : Int) := by
    rw [zpow_natCast, Nat.cast_one, div_one, Nat.cast_pow, Nat.cast_pow, ← mul_pow]
    norm_num
  have hvalue := toRat_of_round?_exact (Nat.pow_pos (by norm_num)) Nat.one_pos
    (round?_tenPower (by omega)) hfive (by omega) hexact
  rw [hvalue, Nat.cast_one, div_one]
  push_cast
  rfl

theorem one_le_tenPower {k : Nat} (hk : k ≤ 308) : 1 ≤ (tenPower k).toRat := by
  have hone := toRat_tenPower (Nat.zero_le 22)
  rw [pow_zero] at hone
  rw [← hone]
  exact tenPower_le (Nat.zero_le k) hk

theorem tenPower_pos {k : Nat} (hk : k ≤ 308) : 0 < (tenPower k).toRat :=
  one_pos.trans_le (one_le_tenPower hk)

/-- A number of 64 bits is rounded to a double. -/
theorem exists_ofNat? {n : Nat} (h : n < wordLimit) : ∃ x, ofNat? n = some x := by
  refine exists_round? n Nat.one_pos ?_
  have hcast : (n : ℚ) < wordLimit := by exact_mod_cast h
  have hlimit : (wordLimit : ℚ) < overflow := by
    have hpow : (2 : ℚ) ^ (11 : Int) ≤ 2 ^ (970 : Int) := zpow_le_zpow_right₀ one_le_two (by decide)
    calc (wordLimit : ℚ) < (2 ^ 54 - 1) * 2 ^ (11 : Int) := by norm_num [wordLimit]
      _ ≤ overflow := mul_le_mul_of_nonneg_left hpow (by norm_num)
  rw [Nat.cast_one, div_one]
  exact hcast.trans hlimit

/-- A number of 53 bits is a double. -/
theorem toRat_ofNat? {n : Nat} (hpos : 0 < n) (h : n ≤ 2 ^ 53) {x : Binary64}
    (hx : ofNat? n = some x) : x.toRat = n := by
  have hexact : (n : ℚ) / (1 : Nat) = n * 2 ^ (0 : Int) := by norm_num
  have hvalue := toRat_of_round?_exact hpos Nat.one_pos hx h (by decide) hexact
  rwa [Nat.cast_one, div_one] at hvalue

/-- Dividing by powers of ten ends in a double. -/
theorem exists_divideByTens {last : Nat} (hlast : last ≤ 308) (steps : Nat) (x : Binary64) :
    ∃ y, divideByTens last steps x = some y := by
  induction steps generalizing x with
  | zero => exact exists_div? x (one_le_tenPower hlast)
  | succ steps ih =>
    unfold divideByTens
    split
    · exact ⟨x, rfl⟩
    · obtain ⟨y, hy⟩ := exists_div? x (one_le_tenPower (le_refl 308))
      obtain ⟨z, hz⟩ := ih y
      exact ⟨z, by rw [hy, Option.bind_some, hz]⟩

/-! ## §3 Scaling -/

/-- What is scaled down is a double. -/
theorem exists_scaleByTens_of_neg {significand : Nat} (h : significand < wordLimit) {power : Int}
    (hpower : power < 0) : ∃ x, scaleByTens significand power = some x := by
  obtain ⟨x, hx⟩ := exists_ofNat? h
  obtain ⟨k, rfl⟩ := Int.eq_negSucc_of_lt_zero hpower
  unfold scaleByTens
  rw [hx]
  exact exists_divideByTens (by omega) _ x

/-- The greatest digits that the shortest decimal of a double may have before `10 ^ k`.  The largest
double is `17976931348623157 · 10 ^ 292`, and `17976931348623158 · 10 ^ 292` is rounded to it as
well. -/
def digitsLimit (k : Nat) : Nat :=
  if k = 292 then 17976931348623157
  else min (10 ^ 17 + 1) ((2 ^ 54 - 1) * 2 ^ 970 / 10 ^ k)

/-- A product of doubles is below the overflow when its quotient of whole numbers is. -/
theorem lt_overflow_of_fraction {x y : Binary64}
    (h : x.fraction.1 * y.fraction.1 < (2 ^ 54 - 1) * 2 ^ 970 * (x.fraction.2 * y.fraction.2)) :
    x.toRat * y.toRat < overflow := by
  have hden : (0 : ℚ) < (x.fraction.2 * y.fraction.2 : Nat) := by
    exact_mod_cast Nat.mul_pos (fraction_den_pos x) (fraction_den_pos y)
  rw [← product_eq, div_lt_iff₀ hden, overflow_eq]
  exact_mod_cast h

/-- Below the last powers of ten the limit of the digits is far from the overflow. -/
theorem exists_digitsLimit_of_le {k : Nat} (hk : k ≤ 290) :
    0 < digitsLimit k ∧ ∃ x, ofNat? (digitsLimit k) = some x
      ∧ x.toRat * (tenPower k).toRat < overflow := by
  have hle : digitsLimit k ≤ 10 ^ 17 + 1 := by
    unfold digitsLimit
    rw [if_neg (by omega)]
    exact min_le_left _ _
  have hpos : 0 < digitsLimit k := by
    unfold digitsLimit
    rw [if_neg (by omega)]
    apply lt_min (by norm_num)
    exact Nat.div_pos (tenPow_lt_overflow (hk.trans (by norm_num))).le (Nat.pow_pos (by norm_num))
  have hword : 10 ^ 17 + 1 < wordLimit := by norm_num [wordLimit]
  obtain ⟨x, hx⟩ := exists_ofNat? (hle.trans_lt hword)
  refine ⟨hpos, x, hx, ?_⟩
  -- both factors are at most what they are at the greatest of these powers
  have hlast : (ofNat? (10 ^ 17 + 1)).any fun top =>
      top.fraction.1 * (tenPower 290).fraction.1
        < (2 ^ 54 - 1) * 2 ^ 970 * (top.fraction.2 * (tenPower 290).fraction.2) := by
    decide +kernel
  rw [Option.any_eq_true] at hlast
  obtain ⟨top, htop, hlt⟩ := hlast
  have hdigits : x.toRat ≤ top.toRat := by
    apply toRat_le_of_round? hpos Nat.one_pos Nat.one_pos hx htop
    rw [Nat.cast_one, div_one, div_one]
    exact_mod_cast hle
  calc x.toRat * (tenPower k).toRat ≤ top.toRat * (tenPower 290).toRat :=
        mul_le_mul hdigits (tenPower_le hk (by norm_num)) (toRat_nonneg _) (toRat_nonneg _)
    _ < overflow := lt_overflow_of_fraction (of_decide_eq_true hlt)

/-- The limit of the digits is still below the overflow when both factors are rounded. -/
theorem exists_digitsLimit {k : Nat} (hk : k ≤ 308) :
    0 < digitsLimit k ∧ ∃ x, ofNat? (digitsLimit k) = some x
      ∧ x.toRat * (tenPower k).toRat < overflow := by
  rcases Nat.lt_or_ge 290 k with hlast | hle
  · -- each of the last powers is tried
    have hall : ∀ k ≤ 308, 290 < k →
        0 < digitsLimit k ∧ (ofNat? (digitsLimit k)).any fun x =>
          x.fraction.1 * (tenPower k).fraction.1
            < (2 ^ 54 - 1) * 2 ^ 970 * (x.fraction.2 * (tenPower k).fraction.2) := by
      decide +kernel
    obtain ⟨hpos, hany⟩ := hall k hk hlast
    rw [Option.any_eq_true] at hany
    obtain ⟨x, hx, hlt⟩ := hany
    exact ⟨hpos, x, hx, lt_overflow_of_fraction (of_decide_eq_true hlt)⟩
  · exact exists_digitsLimit_of_le hle

/-- The largest double has its own shortest decimal. -/
theorem shortest_largest {x : Binary64}
    (h : round? (17976931348623158 * 10 ^ 292) 1 = some x) :
    x.shortest = ⟨17976931348623157, 292⟩ := by
  have hlargest : round? (17976931348623158 * 10 ^ 292) 1 = some ⟨count - 1, by decide⟩ := by
    decide +kernel
  obtain rfl := Option.some.inj (h.symm.trans hlargest)
  decide +kernel

/-- A shortest decimal with zeros behind it is not beyond the overflow. -/
theorem shortest_le_overflow {x : Binary64} (hx : x.isZero = false) {k : Nat}
    (hk : x.shortest.exponent = k) :
    x.Covers (x.shortest.digits * 10 ^ k : Nat)
      ∧ x.shortest.digits * 10 ^ k ≤ (2 ^ 54 - 1) * 2 ^ 970 := by
  have hcovers := (shortest_spec hx).1
  have hvalue : x.shortest.toRat = (x.shortest.digits * 10 ^ k : Nat) := by
    rw [Decimal.toRat, hk, zpow_natCast]
    push_cast
    rfl
  rw [hvalue] at hcovers
  refine ⟨hcovers, ?_⟩
  have hcast := hcovers.high.trans (upper_le_overflow x)
  rw [overflow_eq] at hcast
  exact_mod_cast hcast

/-- The digits of a shortest decimal with zeros behind them are within the limit. -/
theorem digits_le_digitsLimit {x : Binary64} (hx : x.isZero = false) {k : Nat}
    (hk : x.shortest.exponent = k) : k ≤ 308 ∧ x.shortest.digits ≤ digitsLimit k := by
  obtain ⟨-, hdigits, hbound⟩ := shortest_spec hx
  obtain ⟨hcovers, hle⟩ := shortest_le_overflow hx hk
  constructor
  · by_contra hlarge
    have hone : 10 ^ k ≤ x.shortest.digits * 10 ^ k :=
      Nat.le_mul_of_pos_left _ (Nat.pos_of_ne_zero hdigits)
    exact lt_irrefl _ ((overflow_lt_tenPow (by omega)).trans_le (hone.trans hle))
  · have hdiv : x.shortest.digits ≤ (2 ^ 54 - 1) * 2 ^ 970 / 10 ^ k :=
      (Nat.le_div_iff_mul_le (Nat.pow_pos (by decide))).mpr hle
    unfold digitsLimit
    split
    · rename_i h292
      subst h292
      rw [overflow_div_eq] at hdiv
      by_contra hlarge
      -- only the largest double might have the digits beyond the limit, and it has others
      have hequal : x.shortest.digits = 17976931348623158 := by omega
      rw [hequal, ← div_one ((17976931348623158 * 10 ^ 292 : Nat) : ℚ), ← Nat.cast_one] at hcovers
      have hpos : ∀ zeros, 0 < 17976931348623158 * 10 ^ zeros := fun zeros => by positivity
      have hshortest := shortest_largest (round?_of_covers (hpos 292) Nat.one_pos hcovers)
      rw [hshortest] at hequal
      exact absurd hequal (by decide)
    · exact le_min hbound hdiv

/-- A decimal of at most 57 bits that is scaled down is less than with eight in the place of ten. -/
theorem toRat_le_of_negSucc {d : Decimal} (hdigits : d.digits ≤ 10 ^ 17 + 1) {k : Nat}
    (hk : d.exponent = Int.negSucc k) : d.toRat ≤ 2 ^ (57 - 3 * (k + 1 : Nat) : Int) := by
  have hdigits : (d.digits : ℚ) ≤ 2 ^ (57 : Int) := by
    have hcast : (d.digits : ℚ) ≤ (10 ^ 17 + 1 : Nat) := by exact_mod_cast hdigits
    refine hcast.trans ?_
    norm_num
  have height : ((10 : ℚ) ^ (k + 1))⁻¹ ≤ (8 ^ (k + 1))⁻¹ :=
    inv_anti₀ (by positivity) (pow_le_pow_left₀ (by norm_num) (by norm_num) _)
  have hpow : (2 : ℚ) ^ (57 - 3 * (k + 1 : Nat) : Int) = 2 ^ (57 : Int) * (8 ^ (k + 1))⁻¹ := by
    rw [zpow_sub₀ two_ne_zero, zpow_mul, zpow_natCast, div_eq_mul_inv]
    norm_num
  rw [Decimal.toRat, hk, zpow_negSucc, hpow]
  exact mul_le_mul hdigits height (by positivity) (by positivity)

/-- The powers of ten of shortest decimals. -/
theorem exponent_shortest {x : Binary64} (hx : x.isZero = false) :
    -378 ≤ x.shortest.exponent ∧ x.shortest.exponent ≤ 308 := by
  obtain ⟨hcovers, -, hbound⟩ := shortest_spec hx
  cases hexponent : x.shortest.exponent with
  | ofNat k =>
    have hk := (digits_le_digitsLimit hx hexponent).1
    rw [Int.ofNat_eq_natCast]
    omega
  | negSucc k =>
    refine ⟨?_, by omega⟩
    have hall : (2 : ℚ) ^ (-1075 : Int) ≤ 2 ^ (57 - 3 * (k + 1 : Nat) : Int) :=
      ((lower_ge hx).trans hcovers.low).trans (toRat_le_of_negSucc hbound hexponent)
    have hle := (zpow_le_zpow_iff_right₀ (one_lt_two : (1 : ℚ) < 2)).mp hall
    omega

/-- The shortest decimal of a double is scaled to a double. -/
theorem exists_scaleByTens_shortest {x : Binary64} (hx : x.isZero = false) :
    ∃ y, scaleByTens x.shortest.digits x.shortest.exponent = some y := by
  obtain ⟨-, hdigits, hbound⟩ := shortest_spec hx
  have hword : x.shortest.digits < wordLimit := by
    unfold wordLimit
    omega
  cases hexponent : x.shortest.exponent with
  | negSucc k => exact exists_scaleByTens_of_neg hword (Int.negSucc_lt_zero k)
  | ofNat k =>
    obtain ⟨hk, hle⟩ := digits_le_digitsLimit hx hexponent
    obtain ⟨hpos, limit, hlimit, hproduct⟩ := exists_digitsLimit hk
    obtain ⟨y, hy⟩ := exists_ofNat? hword
    -- rounding keeps the order, so the product is no greater than that of the limit
    have hmono : y.toRat ≤ limit.toRat := by
      refine toRat_le_of_round? (Nat.pos_of_ne_zero hdigits) Nat.one_pos Nat.one_pos hy hlimit ?_
      rw [Nat.cast_one, div_one, div_one]
      exact_mod_cast hle
    unfold scaleByTens
    rw [hy]
    dsimp only
    rw [if_pos hk]
    refine exists_mul? (lt_of_le_of_lt ?_ hproduct)
    exact mul_le_mul_of_nonneg_right hmono (toRat_nonneg _)

/-- Digits of 53 bits and a power of ten up to `10 ^ 22` are rounded once, so they give the double
that is nearest to the number. -/
theorem scaleByTens_of_covers {x : Binary64} {significand : Nat} (hpos : 0 < significand)
    (h53 : significand ≤ 2 ^ 53) {power : Int} (hpower : power.natAbs ≤ 22)
    (hcovers : x.Covers (significand * 10 ^ power)) :
    scaleByTens significand power = some x := by
  have hword : significand < wordLimit := by
    unfold wordLimit
    omega
  obtain ⟨y, hy⟩ := exists_ofNat? hword
  -- the digits and the power are doubles, so only their product or quotient is rounded
  have hvalue := toRat_ofNat? hpos h53 hy
  have hypos : 0 < y.toRat := by
    rw [hvalue]
    exact_mod_cast hpos
  unfold scaleByTens
  rw [hy]
  cases power with
  | ofNat k =>
    have hk : k ≤ 22 := hpower
    have hten := tenPower_pos (show k ≤ 308 by omega)
    dsimp only
    rw [if_pos (by omega)]
    refine round?_of_covers (Nat.mul_pos (fraction_num_pos hypos) (fraction_num_pos hten))
      (Nat.mul_pos (fraction_den_pos y) (fraction_den_pos _)) ?_
    rw [product_eq, hvalue, toRat_tenPower hk]
    rwa [Int.ofNat_eq_natCast, zpow_natCast] at hcovers
  | negSucc k =>
    have hk : k + 1 ≤ 22 := hpower
    have hten := tenPower_pos (show k + 1 ≤ 308 by omega)
    dsimp only
    rw [Nat.mod_eq_of_lt (by omega), Nat.div_eq_of_lt (by omega)]
    refine round?_of_covers (Nat.mul_pos (fraction_num_pos hypos) (fraction_den_pos _))
      (Nat.mul_pos (fraction_den_pos y) (fraction_num_pos hten)) ?_
    rw [quotient_eq, hvalue, toRat_tenPower hk]
    rwa [zpow_negSucc, ← div_eq_mul_inv] at hcovers

end UpdateFeed.Json
