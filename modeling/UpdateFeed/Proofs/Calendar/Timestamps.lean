import Mathlib.Data.List.Lex
import Mathlib.Tactic.NormNum
import UpdateFeed.Proofs.Announcement.Redating
import UpdateFeed.Proofs.Calendar.Days

/-!
# Reading timestamps

A timestamp is a row of numbers of fixed widths, each with a mark behind it.  Such rows are read
back number by number, and are ordered like their numbers.  The numbers of a timestamp are those of
a date and of a time of day, so it names its second, and later seconds have greater timestamps.

- `readTimestamp?`: the second that a text names, if it is a timestamp.
- `readTimestamp?_timestamp`, `timestamp_lt`: timestamps are read back, and ordered like instants.
- `withDate_written`: what is written into a manifest as its date.
-/

namespace UpdateFeed.Instant

/-! ## §1 Digits -/

theorem length_padded {width value : Nat} (hwidth : 0 < width) (h : value < 10 ^ width) :
    (padded width value).length = width := by
  have hle := (Nat.length_toDigits_le_iff (by omega) hwidth).mpr h
  simp [padded, hle]

theorem isDigit_padded (width value : Nat) : ∀ c ∈ padded width value, c.isDigit = true := by
  intro c h
  rcases List.mem_append.mp h with hzero | hdigit
  · rw [List.eq_of_mem_replicate hzero]
    rfl
  · exact Nat.isDigit_of_mem_toDigits (by omega) (by omega) hdigit

theorem ofDigitChars_padded (width value : Nat) :
    Nat.ofDigitChars 10 (padded width value) 0 = value := by
  simp [padded, Nat.ofDigitChars_append]

/-- The first digit counts for as many as there are numbers of the digits behind it. -/
theorem ofDigitChars_cons_eq (c : Char) (digits : List Char) :
    Nat.ofDigitChars 10 (c :: digits) 0 =
      10 ^ digits.length * (c.toNat - '0'.toNat) + Nat.ofDigitChars 10 digits 0 := by
  rw [Nat.ofDigitChars_cons, Nat.ofDigitChars_eq_ofDigitChars_zero, Nat.mul_zero, Nat.zero_add]

theorem ofDigitChars_lt {digits : List Char} (h : ∀ c ∈ digits, c.isDigit = true) :
    Nat.ofDigitChars 10 digits 0 < 10 ^ digits.length := by
  induction digits with
  | nil => simp
  | cons c digits ih =>
    obtain ⟨hc, hdigits⟩ := List.forall_mem_cons.mp h
    have hrest := ih hdigits
    have hnine : c.toNat - '0'.toNat ≤ 9 := by
      have hbounds := Char.isDigit_iff_toNat.mp hc
      simp at hbounds ⊢
      omega
    rw [ofDigitChars_cons_eq, List.length_cons, Nat.pow_succ]
    -- the first digit weighs `10 ^ digits.length`, which is more than all later digits reach
    calc 10 ^ digits.length * (c.toNat - '0'.toNat) + Nat.ofDigitChars 10 digits 0
        < 10 ^ digits.length * 9 + 10 ^ digits.length :=
          Nat.add_lt_add_of_le_of_lt (Nat.mul_le_mul_left _ hnine) hrest
      _ = 10 ^ digits.length * 10 := by omega

/-- What stands behind texts of one length does not change their order. -/
theorem append_lt_append {first second : List Char} (hlength : first.length = second.length)
    (h : first < second) (rest rest' : List Char) : first ++ rest < second ++ rest' := by
  induction first generalizing second with
  | nil =>
    obtain rfl := List.length_eq_zero_iff.mp hlength.symm
    exact absurd h (List.lt_irrefl [])
  | cons c first ih =>
    obtain ⟨d, second, rfl⟩ := List.exists_cons_of_length_eq_add_one hlength.symm
    apply List.cons_lt_cons_iff.mpr
    rcases List.cons_lt_cons_iff.mp h with hlt | ⟨heq, hlt⟩
    · exact .inl hlt
    · exact .inr ⟨heq, ih (by simpa using hlength) hlt⟩

/-- Digits of one length are ordered like the numbers that they write. -/
theorem lt_of_ofDigitChars_lt {first second : List Char}
    (hlength : first.length = second.length) (hfirst : ∀ c ∈ first, c.isDigit = true)
    (hsecond : ∀ c ∈ second, c.isDigit = true)
    (h : Nat.ofDigitChars 10 first 0 < Nat.ofDigitChars 10 second 0) : first < second := by
  induction first generalizing second with
  | nil =>
    obtain rfl := List.length_eq_zero_iff.mp hlength.symm
    simp at h
  | cons c first ih =>
    obtain ⟨d, second, rfl⟩ := List.exists_cons_of_length_eq_add_one hlength.symm
    obtain ⟨hc, hfirst⟩ := List.forall_mem_cons.mp hfirst
    obtain ⟨hd, hdigits⟩ := List.forall_mem_cons.mp hsecond
    have hsame : first.length = second.length := by simpa using hlength
    rw [ofDigitChars_cons_eq, ofDigitChars_cons_eq, hsame] at h
    have hbound := ofDigitChars_lt hdigits
    have hzero := (Char.isDigit_iff_toNat.mp hc).1
    have hzero' := (Char.isDigit_iff_toNat.mp hd).1
    apply List.cons_lt_cons_iff.mpr
    -- the first digits decide, unless they are the same
    rcases Nat.lt_trichotomy c.toNat d.toNat with hlt | heq | hgt
    · exact .inl hlt
    · obtain rfl := Char.toNat_inj.mp heq
      exact .inr ⟨rfl, ih hsame hfirst hdigits (by omega)⟩
    · have hmore : d.toNat - '0'.toNat + 1 ≤ c.toNat - '0'.toNat := by omega
      have hmul := Nat.mul_le_mul_left (10 ^ second.length) hmore
      rw [Nat.mul_add, Nat.mul_one] at hmul
      omega

/-- Padded numbers of one width are ordered like the numbers. -/
theorem padded_lt {width first second : Nat} (hwidth : 0 < width) (hsecond : second < 10 ^ width)
    (h : first < second) : padded width first < padded width second := by
  have hfirst : first < 10 ^ width := Nat.lt_trans h hsecond
  apply lt_of_ofDigitChars_lt
  · rw [length_padded hwidth hfirst, length_padded hwidth hsecond]
  · exact isDigit_padded width first
  · exact isDigit_padded width second
  · rwa [ofDigitChars_padded, ofDigitChars_padded]

/-! ## §2 Rows of numbers -/

/-- The widths of some numbers, each with the mark behind the number. -/
abbrev Row := List (Nat × Char)

/-- The text of numbers in a row. -/
def rowChars : Row → List Nat → List Char
  | (width, mark) :: row, value :: values =>
    padded width value ++ mark :: rowChars row values
  | _, _ => []

/-- Reads so many digits and the mark behind them. -/
def readNumber? (width : Nat) (mark : Char) (chars : List Char) : Option (Nat × List Char) :=
  let digits := chars.take width
  if digits.all Char.isDigit ∧ chars[width]? = some mark then
    some (Nat.ofDigitChars 10 digits 0, chars.drop (width + 1))
  else none

/-- Reads the numbers of a row, with nothing behind them. -/
def readRow? : Row → List Char → Option (List Nat)
  | [], [] => some []
  | [], _ :: _ => none
  | (width, mark) :: row, chars =>
    (readNumber? width mark chars).bind fun (value, rest) => (readRow? row rest).map (value :: ·)

/-- Whether each number has room in its width. -/
def Fits (row : Row) (values : List Nat) : Prop :=
  List.Forall₂ (fun part value => 0 < part.1 ∧ value < 10 ^ part.1) row values

theorem readNumber?_digits {digits : List Char} (h : ∀ c ∈ digits, c.isDigit = true) (mark : Char)
    (rest : List Char) :
    readNumber? digits.length mark (digits ++ mark :: rest) =
      some (Nat.ofDigitChars 10 digits 0, rest) := by
  have hall : digits.all Char.isDigit = true := List.all_eq_true.mpr h
  simp [readNumber?, hall]

theorem readNumber?_padded {width value : Nat} (hwidth : 0 < width) (h : value < 10 ^ width)
    (mark : Char) (rest : List Char) :
    readNumber? width mark (padded width value ++ mark :: rest) = some (value, rest) := by
  have hread := readNumber?_digits (isDigit_padded width value) mark rest
  rwa [length_padded hwidth h, ofDigitChars_padded] at hread

/-- A row of numbers is read back. -/
theorem readRow?_rowChars {row : Row} {values : List Nat} (h : Fits row values) :
    readRow? row (rowChars row values) = some values := by
  induction h with
  | nil => rfl
  | cons hvalue hvalues ih =>
    obtain ⟨hwidth, hroom⟩ := hvalue
    simp [readRow?, rowChars, readNumber?_padded hwidth hroom, ih]

theorem length_rowChars {row : Row} {values : List Nat} (h : Fits row values) :
    (rowChars row values).length = (row.map fun part => part.1 + 1).sum := by
  induction h with
  | nil => rfl
  | cons hvalue hvalues ih =>
    simp only [rowChars, List.length_append, List.length_cons, List.map_cons, List.sum_cons, ih,
      length_padded hvalue.1 hvalue.2]
    omega

/-- Rows are ordered like their numbers. -/
theorem rowChars_lt {row : Row} {first second : List Nat} (hfirst : Fits row first)
    (hsecond : Fits row second) (h : first < second) :
    rowChars row first < rowChars row second := by
  induction hfirst generalizing second with
  | nil =>
    cases hsecond
    exact absurd h (List.lt_irrefl [])
  | cons hvalue hvalues ih =>
    cases hsecond with
    | cons hvalue' hvalues' =>
      rcases List.cons_lt_cons_iff.mp h with hlt | ⟨rfl, hrest⟩
      · apply append_lt_append
        · rw [length_padded hvalue.1 hvalue.2, length_padded hvalue'.1 hvalue'.2]
        · exact padded_lt hvalue.1 hvalue'.2 hlt
      · apply List.append_left_lt
        exact List.cons_lt_cons_iff.mpr (.inr ⟨rfl, ih hvalues' hrest⟩)

/-! ## §3 Timestamps -/

/-- The numbers of a timestamp: year, month, day, hour, minute and second. -/
def timestampRow : Row := [(4, '-'), (2, '-'), (2, 'T'), (2, ':'), (2, ':'), (2, 'Z')]

/-- The second since the start of 1970 that a text names, if it is a timestamp: a date that exists
and a time of day. -/
def readTimestamp? (text : String) : Option Int :=
  match readRow? timestampRow text.toList with
  | some [year, month, day, hour, minute, second] =>
    let date : Date := ⟨year, month, day⟩
    if date.isValid ∧ hour < 24 ∧ minute < 60 ∧ second < 60 then
      some (86400 * date.sinceEpoch + (3600 * hour + 60 * minute + second : Nat))
    else none
  | _ => none

/-- Whether an instant lies in some years in a row. -/
def InYears (first last : Int) (now : Instant) : Prop :=
  86400 * Date.sinceEpoch ⟨first, 1, 1⟩ ≤ now.seconds
    ∧ now.seconds < 86400 * Date.sinceEpoch ⟨last + 1, 1, 1⟩

/-- The day of an instant, since the start of 1970. -/
def day (now : Instant) : Int := now.seconds / 86400

/-- The second of its day. -/
def secondOfDay (now : Instant) : Nat := (now.seconds % 86400).toNat

/-- The numbers that are written for an instant. -/
def numbers (now : Instant) : List Nat :=
  let date := Date.civil now.day
  [date.year.toNat, date.month, date.day,
    now.secondOfDay / 3600, now.secondOfDay / 60 % 60, now.secondOfDay % 60]

section

variable {now later : Instant}

theorem seconds_eq (now : Instant) :
    now.seconds = 86400 * now.day + now.secondOfDay ∧ now.secondOfDay < 86400 := by
  unfold day secondOfDay
  omega

theorem isValid_newYear (year : Int) : Date.isValid ⟨year, 1, 1⟩ = true := by
  rw [Date.isValid_iff]
  exact ⟨by simp, le_rfl, Date.daysInMonth_pos year 1⟩

/-- The date of an instant is in the years of the instant. -/
theorem year_bounds {first last : Int} (h : now.InYears first last) :
    first ≤ (Date.civil now.day).year ∧ (Date.civil now.day).year ≤ last := by
  obtain ⟨hfirst, hlast⟩ := h
  have hvalid := Date.isValid_civil now.day
  have hnumber := Date.sinceEpoch_civil now.day
  obtain ⟨hseconds, hrest⟩ := seconds_eq now
  obtain ⟨⟨hmonth, -⟩, hday, -⟩ := (Date.isValid_iff _).mp hvalid
  constructor
  · -- an earlier date would have a smaller number than the first day of the years
    by_contra hless
    have hbefore := Date.sinceEpoch_lt hvalid (isValid_newYear first) (.inl (Int.not_le.mp hless))
    omega
  · by_contra hmore
    have hafter : ¬ (Date.civil now.day).Precedes ⟨last + 1, 1, 1⟩ := by
      unfold Date.Precedes
      dsimp only
      omega
    apply hafter
    apply Date.precedes_of_sinceEpoch_lt hvalid (isValid_newYear _)
    omega

theorem fits_numbers (h : now.InYears 0 9999) : Fits timestampRow now.numbers := by
  obtain ⟨hfirst, hlast⟩ := year_bounds h
  obtain ⟨⟨-, hmonth⟩, -, hday⟩ := (Date.isValid_iff _).mp (Date.isValid_civil now.day)
  obtain ⟨-, hseconds⟩ := seconds_eq now
  have hlongest := Date.daysInMonth_le (Date.civil now.day).year (Date.civil now.day).month
  simp only [Fits, timestampRow, numbers, List.forall₂_cons, List.Forall₂.nil, and_true]
  omega

/-- A timestamp is the row of its numbers. -/
theorem timestamp_eq (h : now.InYears 0 9999) (hnanoseconds : now.nanoseconds < 10 ^ 9) :
    now.timestamp = String.ofList (rowChars timestampRow now.numbers) := by
  obtain ⟨hfirst, hlast⟩ := year_bounds h
  have hday : now.seconds.fdiv 86400 = now.day := Int.fdiv_eq_ediv_of_nonneg _ (by omega)
  have hsecond : (now.seconds.fmod 86400).toNat = now.secondOfDay := by
    rw [Int.fmod_eq_emod_of_nonneg _ (by omega)]
    rfl
  have hyear : yearChars (Date.civil now.day).year =
      padded 4 (Date.civil now.day).year.toNat := by
    have habs : (Date.civil now.day).year.natAbs = (Date.civil now.day).year.toNat := by omega
    rw [yearChars, if_neg (by omega), if_neg (by omega), habs]
  unfold timestamp
  dsimp only
  rw [hday, hsecond, hyear, if_neg (by omega)]
  simp [rowChars, timestampRow, numbers]

/-- A timestamp is read back as the second of its instant. -/
theorem readTimestamp?_timestamp (h : now.InYears 0 9999)
    (hnanoseconds : now.nanoseconds < 10 ^ 9) :
    readTimestamp? now.timestamp = some now.seconds := by
  obtain ⟨hfirst, -⟩ := year_bounds h
  obtain ⟨hseconds, hbound⟩ := seconds_eq now
  have hyear : ((Date.civil now.day).year.toNat : Int) = (Date.civil now.day).year :=
    Int.toNat_of_nonneg hfirst
  unfold readTimestamp?
  rw [timestamp_eq h hnanoseconds, String.toList_ofList, readRow?_rowChars (fits_numbers h)]
  simp only [numbers]
  rw [hyear, if_pos ⟨Date.isValid_civil now.day, by omega⟩, Date.sinceEpoch_civil]
  congr 1
  omega

theorem length_timestamp (h : now.InYears 0 9999) (hnanoseconds : now.nanoseconds < 10 ^ 9) :
    now.timestamp.length = 20 := by
  rw [timestamp_eq h hnanoseconds, String.length_ofList, length_rowChars (fits_numbers h)]
  rfl

/-- Later seconds have greater numbers. -/
theorem numbers_lt (h : now.InYears 0 9999) (hlater : later.InYears 0 9999)
    (hlt : now.seconds < later.seconds) : now.numbers < later.numbers := by
  obtain ⟨hfirst, -⟩ := year_bounds h
  obtain ⟨hfirst', -⟩ := year_bounds hlater
  obtain ⟨hseconds, hbound⟩ := seconds_eq now
  obtain ⟨hseconds', hbound'⟩ := seconds_eq later
  simp only [numbers, List.cons_lt_cons_iff, List.lt_irrefl, and_false, or_false]
  rcases Int.lt_or_eq_of_le (show now.day ≤ later.day by omega) with hday | hday
  · have hdates : (Date.civil now.day).Precedes (Date.civil later.day) := by
      apply Date.precedes_of_sinceEpoch_lt (Date.isValid_civil _) (Date.isValid_civil _)
      rwa [Date.sinceEpoch_civil, Date.sinceEpoch_civil]
    unfold Date.Precedes at hdates
    omega
  · rw [hday]
    omega

/-- Later seconds have greater timestamps. -/
theorem timestamp_lt (h : now.InYears 0 9999) (hnanoseconds : now.nanoseconds < 10 ^ 9)
    (hlater : later.InYears 0 9999) (hnanoseconds' : later.nanoseconds < 10 ^ 9)
    (hlt : now.seconds < later.seconds) : now.timestamp < later.timestamp := by
  rw [timestamp_eq h hnanoseconds, timestamp_eq hlater hnanoseconds', String.lt_iff,
    String.toList_ofList, String.toList_ofList]
  exact rowChars_lt (fits_numbers h) (fits_numbers hlater) (numbers_lt h hlater hlt)

/-- The years of four digits as seconds since the start of 1970. -/
theorem inYears_iff :
    now.InYears 0 9999 ↔ -62167219200 ≤ now.seconds ∧ now.seconds < 253402300800 := by
  have hnumber : ∀ year : Int, Date.sinceEpoch ⟨year, 1, 1⟩ =
      Date.daysBeforeYear year - Date.daysBeforeYear 1970 := by
    intro year
    simp [Date.sinceEpoch, Date.number, Date.daysOfMonths]
  unfold InYears
  rw [hnumber, hnumber, Date.daysBeforeYear_eq, Date.daysBeforeYear_eq, Date.daysBeforeYear_eq]
  norm_num

/-- What is written as the date of a manifest has 20 characters, and names the second at which it
is written.  Later seconds give greater texts, and different seconds different ones. -/
theorem withDate_written (h : now.InYears 0 9999) (hnanoseconds : now.nanoseconds < 10 ^ 9) :
    (∀ (manifest : Manifest) (members : Json.Members),
        manifest.document.root = .object members →
        ∃ changed, manifest.withDate now = .ok changed
          ∧ changed.document.root.member? "pub_date" = some (.string now.timestamp))
      ∧ now.timestamp.length = 20
      ∧ readTimestamp? now.timestamp = some now.seconds
      ∧ ∀ later : Instant, later.InYears 0 9999 → later.nanoseconds < 10 ^ 9 →
        (now.seconds < later.seconds → now.timestamp < later.timestamp)
          ∧ (now.timestamp = later.timestamp → now.seconds = later.seconds) := by
  have hread := readTimestamp?_timestamp h hnanoseconds
  refine ⟨?_, length_timestamp h hnanoseconds, hread, ?_⟩
  · intro manifest members hroot
    refine ⟨_, Manifest.withMember_eq_ok_iff.mpr ⟨members, hroot, rfl⟩, ?_⟩
    exact Json.lookup_assign_self "pub_date" _ members
  · intro later hlater hnanoseconds'
    refine ⟨timestamp_lt h hnanoseconds hlater hnanoseconds', ?_⟩
    intro hsame
    have hread' := readTimestamp?_timestamp hlater hnanoseconds'
    rw [← hsame, hread] at hread'
    exact Option.some.inj hread'

end

/-- The last second before 1970, and the start of a leap day that ends a cycle of 400 years. -/
theorem withDate_written_sample :
    InYears 0 9999 ⟨-1, 999999999⟩ ∧ InYears 0 9999 ⟨951782400, 0⟩
      ∧ readTimestamp? "1969-12-31T23:59:59Z" = some (-1)
      ∧ "1969-12-31T23:59:59Z" < "2000-02-29T00:00:00Z" := by
  have hnow : InYears 0 9999 ⟨-1, 999999999⟩ := inYears_iff.mpr (by norm_num)
  have hlater : InYears 0 9999 ⟨951782400, 0⟩ := inYears_iff.mpr (by norm_num)
  obtain ⟨-, -, hread, hall⟩ := withDate_written hnow (by norm_num)
  have hlt := (hall _ hlater (by norm_num)).1 (by norm_num)
  have htext : timestamp ⟨-1, 999999999⟩ = "1969-12-31T23:59:59Z" := by decide +kernel
  have htext' : timestamp ⟨951782400, 0⟩ = "2000-02-29T00:00:00Z" := by decide +kernel
  rw [htext] at hread hlt
  rw [htext'] at hlt
  exact ⟨hnow, hlater, hread, hlt⟩

end UpdateFeed.Instant
