/-!
# Results that may be errors

What is known of a result in parts when it is no error, and when it is one.

- `exists_of_bind_eq_ok`, `bind_eq_ok_iff`, `or_of_bind_eq_error`: a result in two parts.
- `map_eq_ok`, `mapError_eq_ok`, `mapError_eq_error`: a result that is worked on.
- `foldlM_invariant`: what the steps of a fold keep.
- `exists_of_foldlM_eq_error`: where a fold that is an error has stopped.
-/

namespace UpdateFeed

variable {ε ε' α β : Type}

theorem ok_bind (value : α) (next : α → Except ε β) : (Except.ok value >>= next) = next value :=
  rfl

theorem error_bind (error : ε) (next : α → Except ε β) :
    (Except.error error >>= next) = .error error :=
  rfl

/-- A result in two parts that is no error has no error in either part. -/
theorem exists_of_bind_eq_ok {first : Except ε α} {next : α → Except ε β} {result : β}
    (h : (first >>= next) = .ok result) : ∃ value, first = .ok value ∧ next value = .ok result := by
  cases first with
  | ok value => exact ⟨value, rfl, h⟩
  | error error => simp [bind, Except.bind] at h

/-- A result in two parts is no error when both parts are none. -/
theorem bind_eq_ok_iff {first : Except ε α} {next : α → Except ε β} {result : β} :
    (first >>= next) = .ok result ↔ ∃ value, first = .ok value ∧ next value = .ok result := by
  constructor
  · exact exists_of_bind_eq_ok
  · rintro ⟨value, hfirst, hnext⟩
    rw [hfirst, ok_bind, hnext]

/-- An error of a result in two parts is an error of the first part or of the second one. -/
theorem or_of_bind_eq_error {first : Except ε α} {next : α → Except ε β} {error : ε}
    (h : (first >>= next) = .error error) :
    first = .error error ∨ ∃ value, first = .ok value ∧ next value = .error error := by
  cases first with
  | ok value => exact .inr ⟨value, rfl, h⟩
  | error first => exact .inl (by simpa [bind, Except.bind] using h)

/-- A result that is worked on is no error when the result is none. -/
theorem map_eq_ok {result : Except ε α} {f : α → β} {value : β} :
    result.map f = .ok value ↔ ∃ found, result = .ok found ∧ f found = value := by
  cases result with
  | ok found => simp [Except.map]
  | error error => simp [Except.map]

/-- A result in other terms is no error when the result is none. -/
theorem mapError_eq_ok {result : Except ε α} {wrap : ε → ε'} {value : α} :
    result.mapError wrap = .ok value ↔ result = .ok value := by
  cases result with
  | ok found =>
    show (.ok found : Except ε' α) = .ok value ↔ (.ok found : Except ε α) = .ok value
    rw [Except.ok.injEq, Except.ok.injEq]
  | error error =>
    constructor
    · intro h
      cases h
    · intro h
      cases h

/-- An error in other terms is the error of the result. -/
theorem mapError_eq_error {result : Except ε α} {wrap : ε → ε'} {error : ε'} :
    result.mapError wrap = .error error ↔ ∃ inner, result = .error inner ∧ wrap inner = error := by
  cases result with
  | ok value =>
    constructor
    · intro h
      cases h
    · rintro ⟨inner, h, -⟩
      cases h
  | error inner =>
    constructor
    · intro h
      exact ⟨inner, rfl, Except.error.inj h⟩
    · rintro ⟨other, h, rfl⟩
      obtain rfl := Except.error.inj h
      rfl

/-- What each step keeps, a fold that is no error keeps. -/
theorem foldlM_invariant {step : α → β → Except ε α} {keeps : α → Prop}
    (hstep : ∀ first item last, keeps first → step first item = .ok last → keeps last)
    {items : List β} {first last : α} (h : keeps first)
    (hok : items.foldlM step first = .ok last) : keeps last := by
  induction items generalizing first with
  | nil =>
    obtain rfl := Except.ok.inj hok
    exact h
  | cons item items ih =>
    rw [List.foldlM_cons] at hok
    obtain ⟨between, hitem, hok⟩ := exists_of_bind_eq_ok hok
    exact ih (hstep first item between h hitem) hok

/-- A fold that is an error has stopped at one item, behind others that gave no error. -/
theorem exists_of_foldlM_eq_error {step : α → β → Except ε α} {items : List β} {first : α}
    {error : ε} (h : items.foldlM step first = .error error) :
    ∃ done item later between, items = done ++ item :: later
      ∧ done.foldlM step first = .ok between ∧ step between item = .error error := by
  induction items generalizing first with
  | nil => cases h
  | cons item items ih =>
    rw [List.foldlM_cons] at h
    rcases or_of_bind_eq_error h with hitem | ⟨between, hitem, h⟩
    · exact ⟨[], item, items, first, rfl, rfl, hitem⟩
    · obtain ⟨done, failing, later, last, rfl, hdone, hfailing⟩ := ih h
      refine ⟨item :: done, failing, later, last, rfl, ?_, hfailing⟩
      rw [List.foldlM_cons, hitem]
      exact hdone

end UpdateFeed
