import UpdateFeed.Proofs.Results

/-!
# Steps in either order

A step changes a state or fails.  Two steps can be interchanged when neither order of them succeeds
where the other one fails, and both lead to the same state.  A step is lasting when making it again
changes nothing.  Lasting steps that can all be interchanged may be made in any order, and any of
them more than once.

- `Interchange.bind`: steps in two parts.
- `foldlM_eq_ok_iff_of_perm`: steps in another order.
- `foldlM_eq_ok_iff_of_mem_iff`: steps in another order, some of them more often.
-/

namespace UpdateFeed

variable {ε σ ι : Type}

/-! ## §1 Two steps -/

/-- Whether two steps can be made in either order. -/
def Interchange (first second : σ → Except ε σ) : Prop :=
  ∀ before after, (first before >>= second) = .ok after ↔ (second before >>= first) = .ok after

variable {first second other : σ → Except ε σ}

theorem Interchange.symm (h : Interchange first second) : Interchange second first :=
  fun before after => (h before after).symm

/-- A step that does nothing can be made at any time. -/
theorem interchange_ok (step : σ → Except ε σ) : Interchange .ok step := by
  intro before after
  rw [ok_bind]
  cases step before with
  | ok value => rfl
  | error error => rfl

/-- A step in two parts can be interchanged with another one if both parts can. -/
theorem Interchange.bind (h : Interchange first other) (h' : Interchange second other) :
    Interchange (fun before => first before >>= second) other := by
  intro before after
  calc (first before >>= second) >>= other = .ok after
      ↔ ∃ between, first before = .ok between ∧ (second between >>= other) = .ok after := by
        rw [bind_assoc, bind_eq_ok_iff]
    _ ↔ ∃ between, first before = .ok between ∧ (other between >>= second) = .ok after := by
        simp only [h' _ after]
    _ ↔ ∃ between, (first before >>= other) = .ok between ∧ second between = .ok after := by
        rw [← bind_eq_ok_iff, ← bind_assoc, bind_eq_ok_iff]
    _ ↔ ∃ between, (other before >>= first) = .ok between ∧ second between = .ok after := by
        simp only [h before]
    _ ↔ (other before >>= fun before => first before >>= second) = .ok after := by
        rw [← bind_eq_ok_iff, bind_assoc]

/-! ## §2 Steps for the items of a list -/

section

variable {step : σ → ι → Except ε σ} {item : ι} {items others : List ι} {before after : σ}
  (hswap : ∀ item other, Interchange (step · item) (step · other))

include hswap

/-- Steps that can be interchanged can be made in another order. -/
theorem foldlM_eq_ok_iff_of_perm (h : items.Perm others) :
    items.foldlM step before = .ok after ↔ others.foldlM step before = .ok after := by
  induction h generalizing before with
  | nil => rfl
  | cons item _ ih =>
    rw [List.foldlM_cons, List.foldlM_cons, bind_eq_ok_iff, bind_eq_ok_iff]
    simp only [ih]
  | swap item other items =>
    -- the two steps at the start are made before all the others
    have hpair := fun between => hswap other item before between
    simp only [List.foldlM_cons, ← bind_assoc]
    rw [bind_eq_ok_iff, bind_eq_ok_iff]
    simp only [hpair]
  | trans _ _ ih ih' => exact ih.trans ih'

variable (hlasting : ∀ item before after, step before item = .ok after →
  step after item = .ok after)

include hlasting

/-- A step that was made among others changes nothing when it is made again. -/
theorem step_of_foldlM (hmem : item ∈ items) (h : items.foldlM step before = .ok after) :
    step after item = .ok after := by
  -- it could have been the last one
  obtain ⟨front, rest, rfl⟩ := List.append_of_mem hmem
  have hlast : (front ++ item :: rest).Perm ((front ++ rest) ++ [item]) :=
    List.perm_middle.trans (List.perm_append_singleton item (front ++ rest)).symm
  rw [foldlM_eq_ok_iff_of_perm hswap hlast, List.foldlM_append, bind_eq_ok_iff] at h
  obtain ⟨between, -, hitem⟩ := h
  rw [List.foldlM_cons, bind_eq_ok_iff] at hitem
  obtain ⟨last, hstep, hnil⟩ := hitem
  obtain rfl := Except.ok.inj hnil
  exact hlasting item between last hstep

/-- Steps that were all made before change nothing. -/
theorem foldlM_of_made (hmade : ∀ item ∈ others, item ∈ items)
    (h : items.foldlM step before = .ok after) : others.foldlM step after = .ok after := by
  induction others with
  | nil => rfl
  | cons other others ih =>
    rw [List.foldlM_cons, step_of_foldlM hswap hlasting (hmade other (by simp)) h, ok_bind]
    exact ih fun item hitem => hmade item (List.mem_cons_of_mem other hitem)

/-- Lasting steps that can be interchanged can be made in another order, and some of them more
often. -/
theorem foldlM_eq_ok_iff_of_mem_iff (h : ∀ item, item ∈ items ↔ item ∈ others) :
    items.foldlM step before = .ok after ↔ others.foldlM step before = .ok after := by
  -- one direction suffices, as it is said for all lists
  suffices hone : ∀ {items others : List ι}, (∀ item, item ∈ items ↔ item ∈ others) →
      items.foldlM step before = .ok after → others.foldlM step before = .ok after from
    ⟨hone h, hone fun item => (h item).symm⟩
  intro items others h hitems
  -- the steps of both lists lead to the same state, whichever list comes first
  have hboth : (items ++ others).foldlM step before = .ok after := by
    rw [List.foldlM_append, hitems, ok_bind]
    exact foldlM_of_made hswap hlasting (fun item => (h item).mpr) hitems
  rw [foldlM_eq_ok_iff_of_perm hswap List.perm_append_comm, List.foldlM_append,
    bind_eq_ok_iff] at hboth
  obtain ⟨between, hothers, hagain⟩ := hboth
  have hmade := foldlM_of_made hswap hlasting (fun item => (h item).mp) hothers
  obtain rfl := Except.ok.inj (hmade.symm.trans hagain)
  exact hothers

end

end UpdateFeed
