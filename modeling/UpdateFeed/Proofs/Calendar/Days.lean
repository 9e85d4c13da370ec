import Mathlib.Tactic.IntervalCases
import Mathlib.Tactic.SplitIfs
import UpdateFeed.Calendar

/-!
# Counting days

The days of the calendar are counted by adding up the lengths of years and months.  The date of a
number of days is found the other way round, by divisions.  Both agree on all days, those before
the year 0 included.

- `Date.sinceEpoch`: the days from the start of 1970 to a date, added up.
- `sinceEpoch_civil`, `isValid_civil`: the date of a number of days exists, and has that number.
- `sinceEpoch_lt`: later dates have greater numbers.
-/

namespace UpdateFeed.Date

/-! ## §1 Adding up -/

/-- The number of days of a year. -/
def daysInYear (year : Int) : Nat :=
  if isLeapYear year then 366 else 365

/-- The number of days of some years in a row. -/
def daysOfYears (first : Int) : Nat → Nat
  | 0 => 0
  | count + 1 => daysOfYears first count + daysInYear (first + count)

/-- The number of days of the first months of a year. -/
def daysOfMonths (year : Int) : Nat → Nat
  | 0 => 0
  | count + 1 => daysOfMonths year count + daysInMonth year (count + 1)

/-- The days from the start of the year 0 to that of a year, negative for the years before. -/
def daysBeforeYear (year : Int) : Int :=
  daysOfYears 0 year.toNat - daysOfYears year (-year).toNat

/-- The days from the start of the year 0 to a date. -/
def number (date : Date) : Int :=
  daysBeforeYear date.year + daysOfMonths date.year (date.month - 1) + (date.day - 1)

/-- The days from the start of 1970 to a date. -/
def sinceEpoch (date : Date) : Int :=
  date.number - number ⟨1970, 1, 1⟩

/-! ## §2 Years -/

theorem isLeapYear_iff (year : Int) :
    isLeapYear year = true ↔ year % 4 = 0 ∧ (year % 100 ≠ 0 ∨ year % 400 = 0) := by
  simp [isLeapYear]

/-- A year after another one adds its own days. -/
theorem daysInYear_eq (year : Int) :
    (daysInYear year : Int) =
      365 + (year / 4 - (year - 1) / 4) - (year / 100 - (year - 1) / 100)
        + (year / 400 - (year - 1) / 400) := by
  unfold daysInYear
  split_ifs with hleap
  · rw [isLeapYear_iff] at hleap
    omega
  · rw [isLeapYear_iff] at hleap
    omega

theorem daysOfYears_eq (first : Int) (count : Nat) :
    (daysOfYears first count : Int) =
      365 * count + ((first + count - 1) / 4 - (first - 1) / 4)
        - ((first + count - 1) / 100 - (first - 1) / 100)
        + ((first + count - 1) / 400 - (first - 1) / 400) := by
  induction count with
  | zero => simp [daysOfYears]
  | succ count ih =>
    have hyear := daysInYear_eq (first + count)
    simp only [daysOfYears]
    omega

/-- The days before a year: 365 for each one, and the leap days. -/
theorem daysBeforeYear_eq (year : Int) :
    daysBeforeYear year =
      365 * year + (year - 1) / 4 - (year - 1) / 100 + (year - 1) / 400 + 1 := by
  have hafter := daysOfYears_eq 0 year.toNat
  have hbefore := daysOfYears_eq year (-year).toNat
  unfold daysBeforeYear
  -- one of the two sums is empty
  rcases Int.le_total 0 year with h | h
  · have hzero : (-year).toNat = 0 := by omega
    rw [hzero] at hbefore ⊢
    omega
  · have hzero : year.toNat = 0 := by omega
    rw [hzero] at hafter ⊢
    omega

/-- The days of the years in between lie between the starts of two years. -/
theorem daysBeforeYear_add_le {first second : Int} (h : first < second) :
    daysBeforeYear first + daysInYear first ≤ daysBeforeYear second := by
  have hyear := daysInYear_eq first
  rw [daysBeforeYear_eq, daysBeforeYear_eq]
  omega

/-! ## §3 Months -/

theorem daysOfMonths_add_le (year : Int) {first second : Nat} (h : first < second) :
    daysOfMonths year first + daysInMonth year (first + 1) ≤ daysOfMonths year second := by
  induction second with
  | zero => omega
  | succ second ih =>
    rw [daysOfMonths]
    rcases Nat.lt_succ_iff_lt_or_eq.mp h with hlt | rfl
    · have hle := ih hlt
      omega
    · exact Nat.le_refl _

theorem daysOfMonths_twelve (year : Int) : daysOfMonths year 12 = daysInYear year := by
  unfold daysInYear
  simp only [daysOfMonths, daysInMonth]
  split_ifs <;> rfl

theorem daysInMonth_le (year : Int) (month : Nat) : daysInMonth year month ≤ 31 := by
  unfold daysInMonth
  split <;> (try split_ifs) <;> omega

theorem isValid_iff (date : Date) :
    date.isValid = true ↔
      (1 ≤ date.month ∧ date.month ≤ 12)
        ∧ (1 ≤ date.day ∧ date.day ≤ daysInMonth date.year date.month) := by
  simp [isValid, and_assoc]

/-- A date that exists is within its month and its year. -/
theorem day_le_of_isValid {date : Date} (h : date.isValid = true) :
    daysOfMonths date.year (date.month - 1) + date.day ≤ daysOfMonths date.year date.month
      ∧ daysOfMonths date.year date.month ≤ daysInYear date.year := by
  obtain ⟨⟨hpos, htwelve⟩, -, hday⟩ := (isValid_iff date).mp h
  obtain ⟨before, hmonth⟩ : ∃ before, date.month = before + 1 := ⟨date.month - 1, by omega⟩
  rw [hmonth] at hday htwelve ⊢
  constructor
  · rw [Nat.add_sub_cancel, daysOfMonths]
    omega
  · rw [← daysOfMonths_twelve]
    rcases Nat.eq_or_lt_of_le htwelve with heq | hlt
    · rw [heq]
    · exact Nat.le_trans (Nat.le_add_right _ _) (daysOfMonths_add_le date.year hlt)

/-! ## §4 The order of dates -/

/-- Whether a date comes before another one by year, month and day. -/
def Precedes (first second : Date) : Prop :=
  first.year < second.year
    ∨ first.year = second.year
      ∧ (first.month < second.month ∨ first.month = second.month ∧ first.day < second.day)

theorem precedes_trichotomy (first second : Date) :
    first.Precedes second ∨ first = second ∨ second.Precedes first := by
  obtain ⟨year, month, day⟩ := first
  obtain ⟨year', month', day'⟩ := second
  simp only [Precedes, mk.injEq]
  omega

/-- Later dates have greater numbers. -/
theorem sinceEpoch_lt {first second : Date} (hfirst : first.isValid = true)
    (hsecond : second.isValid = true) (h : first.Precedes second) :
    first.sinceEpoch < second.sinceEpoch := by
  obtain ⟨hmonth, hyear⟩ := day_le_of_isValid hfirst
  obtain ⟨⟨hpos, -⟩, hday, -⟩ := (isValid_iff second).mp hsecond
  obtain ⟨⟨hposFirst, -⟩, -⟩ := (isValid_iff first).mp hfirst
  unfold sinceEpoch number
  rcases h with hlt | ⟨heq, hlt | ⟨heqMonth, hlt⟩⟩
  · have hyears := daysBeforeYear_add_le hlt
    omega
  · -- the earlier month is over when the later one begins
    have hbefore : first.month - 1 < second.month - 1 := by omega
    have hmonths := daysOfMonths_add_le second.year hbefore
    have hstep : daysOfMonths first.year first.month =
        daysOfMonths first.year (first.month - 1)
          + daysInMonth first.year (first.month - 1 + 1) := by
      conv_lhs => rw [show first.month = first.month - 1 + 1 by omega]
      rfl
    rw [heq] at hmonth hstep ⊢
    omega
  · rw [heq, heqMonth]
    omega

theorem precedes_of_sinceEpoch_lt {first second : Date} (hfirst : first.isValid = true)
    (hsecond : second.isValid = true) (h : first.sinceEpoch < second.sinceEpoch) :
    first.Precedes second := by
  rcases precedes_trichotomy first second with hlt | rfl | hgt
  · exact hlt
  · omega
  · have hback := sinceEpoch_lt hsecond hfirst hgt
    omega

/-! ## §5 Dates of days -/

/-- A day of 400 years by the century, the four years and the year that it is in.  Years begin with
the first of March, so that each century and each four years but the last ones have the same
length. -/
theorem exists_yearOfCycle {n : Nat} (h : n < 146097) :
    ∃ century four year day, n = 36524 * century + 1461 * four + 365 * year + day
      ∧ century ≤ 3 ∧ four ≤ 24 ∧ year ≤ 3 ∧ day ≤ 365
      ∧ (day = 365 → year = 3 ∧ (four = 24 → century = 3)) := by
  by_cases hlast : n = 146096
  · exact ⟨3, 24, 3, 365, by omega⟩
  · by_cases hleap : n % 36524 % 1461 = 1460
    · exact ⟨n / 36524, n % 36524 / 1461, 3, 365, by omega⟩
    · exact ⟨n / 36524, n % 36524 / 1461, n % 36524 % 1461 / 365, n % 36524 % 1461 % 365, by omega⟩

/-- The year is found by taking off the leap days before it. -/
theorem yearOfCycle_eq {n century four year day : Nat}
    (hn : n = 36524 * century + 1461 * four + 365 * year + day) (hcentury : century ≤ 3)
    (hfour : four ≤ 24) (hyear : year ≤ 3) (hday : day ≤ 365)
    (hlast : day = 365 → year = 3 ∧ (four = 24 → century = 3)) :
    (n - n / 1460 + n / 36524 - n / 146096) / 365 = 100 * century + 4 * four + year := by
  -- the leap days so far, and one more towards the end of four years
  have hleaps : n / 1460 =
      25 * century + four + (24 * century + four + 365 * year + day) / 1460 := by omega
  have hcenturies : n / 36524 - n / 146096 = century := by omega
  have hle : n / 146096 ≤ n / 36524 := by omega
  generalize hmore : (24 * century + four + 365 * year + day) / 1460 = more at hleaps
  have hone : more = 0 ∨ more = 1 ∧ year = 3 ∧ 1 ≤ day := by omega
  have hall : day = 365 → more = 1 := by omega
  have hsum : n - n / 1460 + n / 36524 - n / 146096 =
      365 * (100 * century + 4 * four + year) + (day - more) := by omega
  rw [hsum, Nat.mul_add_div (by omega), Nat.div_eq_of_lt (by omega), Nat.add_zero]

/-- The date of a day of a year that begins with the first of March. -/
def ofMarchDay (year : Int) (day : Nat) : Date :=
  let monthFromMarch := (5 * day + 2) / 153
  let month := if monthFromMarch < 10 then monthFromMarch + 3 else monthFromMarch - 9
  ⟨year + (if month ≤ 2 then 1 else 0), month, day - (153 * monthFromMarch + 2) / 5 + 1⟩

theorem february_eq (year : Int) :
    ((if isLeapYear year = true then 29 else 28 : Nat) : Int) = daysInYear year - 337 := by
  unfold daysInYear
  split_ifs <;> rfl

/-- The days of the months before a day that is counted from the first of March. -/
theorem ofMarchDay_spec (year : Int) {day : Nat} (hday : day ≤ 365)
    (hleap : day = 365 → isLeapYear (year + 1) = true) :
    (ofMarchDay year day).isValid = true
      ∧ (ofMarchDay year day).number =
        365 * year + year / 4 - year / 100 + year / 400 + 60 + day := by
  have hyear := daysInYear_eq year
  have hthis := february_eq year
  have hnext : 28 ≤ (if isLeapYear (year + 1) = true then 29 else 28)
      ∧ (day = 365 → (if isLeapYear (year + 1) = true then 29 else 28) = 29) := by
    split_ifs with h
    · omega
    · exact ⟨Nat.le_refl _, fun heq => absurd (hleap heq) h⟩
  have hmonth : (5 * day + 2) / 153 ≤ 11 := by omega
  unfold ofMarchDay number
  rw [isValid_iff, daysBeforeYear_eq]
  dsimp only
  generalize hfrom : (5 * day + 2) / 153 = monthFromMarch at hmonth
  -- March to December, then January and February of the next year
  interval_cases monthFromMarch
  all_goals
    simp only [daysOfMonths, daysInMonth, Nat.reduceAdd, Nat.reduceSub, Nat.reduceMul,
      Nat.reduceDiv, Nat.reduceLT, Nat.reduceLeDiff, if_true, if_false, Int.add_zero, true_and]
    omega

/-- The days before a year of 400 years, counted from the first of March. -/
theorem daysBefore_yearOfCycle (cycle : Int) {century four year : Nat} (hcentury : century ≤ 3)
    (hfour : four ≤ 24) (hyear : year ≤ 3) :
    let yearOfCycle := 100 * century + 4 * four + year
    let whole := (yearOfCycle : Int) + cycle * 400
    365 * yearOfCycle + yearOfCycle / 4 - yearOfCycle / 100 =
        36524 * century + 1461 * four + 365 * year
      ∧ 365 * whole + whole / 4 - whole / 100 + whole / 400 =
        146097 * cycle + (36524 * century + 1461 * four + 365 * year : Nat) := by
  dsimp only
  omega

/-- A leap day ends four years, unless these are the last ones of a century. -/
theorem isLeapYear_after (cycle : Int) {century four : Nat} (hfour : four ≤ 24)
    (hlast : four = 24 → century = 3) :
    isLeapYear ((100 * century + 4 * four + 3 : Nat) + cycle * 400 + 1) = true := by
  rw [isLeapYear_iff]
  omega

/-- The date of a number of days is that of a day which is counted from the first of March. -/
theorem exists_civil_eq (days : Int) :
    ∃ year day, civil days = ofMarchDay year day ∧ day ≤ 365
      ∧ (day = 365 → isLeapYear (year + 1) = true)
      ∧ days + epochShift = 365 * year + year / 4 - year / 100 + year / 400 + day := by
  -- the shifted day count is not assumed nonnegative, so the cycle is its floor, and what is left
  -- over is a natural number below one whole cycle
  have hdiv : (days + epochShift).fdiv 146097 = (days + epochShift) / 146097 :=
    Int.fdiv_eq_ediv_of_nonneg _ (by omega)
  have hmod : (days + epochShift).fmod 146097 = (days + epochShift) % 146097 :=
    Int.fmod_eq_emod_of_nonneg _ (by omega)
  obtain ⟨cycle, n, hn, hcycle, hrest, hbound⟩ : ∃ (cycle : Int) (n : Nat),
      days + epochShift = 146097 * cycle + n ∧ (days + epochShift) / 146097 = cycle
        ∧ ((days + epochShift) % 146097).toNat = n ∧ n < 146097 :=
    ⟨_, _, by omega, rfl, rfl, by omega⟩
  obtain ⟨century, four, year, day, hsplit, hcentury, hfour, hyear, hday, hlast⟩ :=
    exists_yearOfCycle hbound
  -- counted from the cycle, the split gives both the days before the year and the year formula
  obtain ⟨hbefore, hwhole⟩ := daysBefore_yearOfCycle cycle hcentury hfour hyear
  refine ⟨(100 * century + 4 * four + year : Nat) + cycle * 400, day, ?_, hday, ?_, ?_⟩
  · unfold civil ofMarchDay
    dsimp only
    rw [hdiv, hmod, hcycle, hrest, yearOfCycle_eq hsplit hcentury hfour hyear hday hlast, hbefore,
      hsplit, Nat.add_sub_cancel_left]
  · intro hlastDay
    obtain ⟨rfl, hend⟩ := hlast hlastDay
    exact isLeapYear_after cycle hfour hend
  · rw [hwhole, hn, hsplit, Int.natCast_add, Int.add_assoc]

/-- The date of a number of days exists. -/
theorem isValid_civil (days : Int) : (civil days).isValid = true := by
  obtain ⟨year, day, heq, hday, hleap, -⟩ := exists_civil_eq days
  rw [heq]
  exact (ofMarchDay_spec year hday hleap).1

/-- The date of a number of days has that number. -/
theorem sinceEpoch_civil (days : Int) : (civil days).sinceEpoch = days := by
  obtain ⟨year, day, heq, hday, hleap, hdays⟩ := exists_civil_eq days
  have hepoch : number ⟨1970, 1, 1⟩ = 719528 := by
    unfold number
    rw [daysBeforeYear_eq]
    simp [daysOfMonths]
  rw [sinceEpoch, heq, (ofMarchDay_spec year hday hleap).2, hepoch]
  unfold epochShift at hdays
  omega

/-- A date that exists is that of its number of days. -/
theorem civil_sinceEpoch {date : Date} (h : date.isValid = true) :
    civil date.sinceEpoch = date := by
  have hvalid := isValid_civil date.sinceEpoch
  have hsame := sinceEpoch_civil date.sinceEpoch
  rcases precedes_trichotomy (civil date.sinceEpoch) date with hlt | heq | hgt
  · have hless := sinceEpoch_lt hvalid h hlt
    omega
  · exact heq
  · have hmore := sinceEpoch_lt h hvalid hgt
    omega

end UpdateFeed.Date
