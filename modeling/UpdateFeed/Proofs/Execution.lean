import UpdateFeed.Proofs.Results
import UpdateFeed.Session

/-!
# Executing runs

`Run.exec` gives the result of a run from a session together with the session that it leaves.  Each
of the basic runs has one equation, and `exec_bind` takes a run apart into its first part and what
follows it; nothing else is needed to follow a run step by step.

- `exec_bind_eq_ok_iff`, `exec_bind_eq_error`: what the parts of a run did, seen from its result.
- `steps_of_exec_mapM`, `exists_of_exec_mapM_error`: what a run over a list did, item by item.
- `steps_of_results`: what it did, result by result.
- `exec_mapM_invariant`: what a run over a list keeps.
- `alongside_mapM`: two runs over a list side by side, with a relation that each item keeps.
-/

namespace UpdateFeed

variable {ε ε' α β : Type}

namespace Run

/-! ## §1 Results and sessions -/

/-- The result of a run from a session, and the session that it leaves. -/
def exec (run : Run ε α) (session : Session) : Except ε α × Session :=
  run.run.run session

@[simp] theorem exec_pure (value : α) (session : Session) :
    exec (pure value : Run ε α) session = (.ok value, session) := rfl

@[simp] theorem exec_throw (error : ε) (session : Session) :
    exec (throw error : Run ε α) session = (.error error, session) := rfl

/-- A run in two parts ends with the second part, or with an error of the first one. -/
theorem exec_bind (run : Run ε α) (next : α → Run ε β) (session : Session) :
    exec (run >>= next) session =
      match exec run session with
      | (.ok value, between) => exec (next value) between
      | (.error error, between) => (.error error, between) := by
  unfold exec
  rw [ExceptT.run_bind, StateT.run_bind]
  rcases ExceptT.run run |>.run session with ⟨result, between⟩
  cases result <;> rfl

@[simp] theorem exec_map (f : α → β) (run : Run ε α) (session : Session) :
    exec (f <$> run) session = ((exec run session).1.map f, (exec run session).2) := by
  rw [← bind_pure_comp, exec_bind]
  rcases exec run session with ⟨result, after⟩
  cases result <;> rfl

theorem exec_bind_eq_ok {run : Run ε α} {next : α → Run ε β} {session after : Session}
    {result : β} (h : exec (run >>= next) session = (.ok result, after)) :
    ∃ value between, exec run session = (.ok value, between)
      ∧ exec (next value) between = (.ok result, after) := by
  rw [exec_bind] at h
  rcases hrun : exec run session with ⟨first, between⟩
  rw [hrun] at h
  cases first with
  | ok value => exact ⟨value, between, rfl, h⟩
  | error error => simp at h

/-- A run in two parts succeeds when both parts do. -/
theorem exec_bind_eq_ok_iff {run : Run ε α} {next : α → Run ε β} {session after : Session}
    {result : β} : exec (run >>= next) session = (.ok result, after) ↔
      ∃ value between, exec run session = (.ok value, between)
        ∧ exec (next value) between = (.ok result, after) := by
  constructor
  · exact exec_bind_eq_ok
  · rintro ⟨value, between, hrun, hnext⟩
    rw [exec_bind, hrun]
    exact hnext

theorem exec_bind_eq_error {run : Run ε α} {next : α → Run ε β} {session after : Session}
    {error : ε} (h : exec (run >>= next) session = (.error error, after)) :
    exec run session = (.error error, after)
      ∨ ∃ value between, exec run session = (.ok value, between)
        ∧ exec (next value) between = (.error error, after) := by
  rw [exec_bind] at h
  rcases hrun : exec run session with ⟨first, between⟩
  rw [hrun] at h
  cases first with
  | ok value => exact .inr ⟨value, between, rfl, h⟩
  | error first => exact .inl (by simpa using h)

/-! ## §2 Basic runs -/

@[simp] theorem exec_get (session : Session) :
    exec (get : Run ε Session) session = (.ok session, session) := rfl

@[simp] theorem exec_modify (change : Session → Session) (session : Session) :
    exec (modify change : Run ε Unit) session = (.ok (), change session) := rfl

@[simp] theorem exec_report (level : Log.Level) (origin : Log.Origin) (message : String)
    (session : Session) :
    exec (report level origin message : Run ε Unit) session =
      (.ok (), { session with events := session.events ++ [⟨level, origin, message⟩] }) := rfl

@[simp] theorem exec_reportAll (events : List Log.Event) (session : Session) :
    exec (reportAll events : Run ε Unit) session =
      (.ok (), { session with events := session.events ++ events }) := rfl

@[simp] theorem exec_files (session : Session) :
    exec (files : Run ε FileSystem) session = (.ok session.files, session) := rfl

@[simp] theorem exec_setFiles (files : FileSystem) (session : Session) :
    exec (setFiles files : Run ε Unit) session = (.ok (), { session with files }) := rfl

@[simp] theorem exec_lift (wrap : ε' → ε) (result : Except ε' α) (session : Session) :
    exec (lift wrap result) session = (result.mapError wrap, session) := by
  cases result <;> rfl

@[simp] theorem exec_mapError (wrap : ε' → ε) (run : Run ε' α) (session : Session) :
    exec (mapError wrap run) session =
      ((exec run session).1.mapError wrap, (exec run session).2) := by
  rfl

@[simp] theorem exec_attempt (run : Run ε' α) (session : Session) :
    exec (attempt run : Run ε (Except ε' α)) session =
      (.ok (exec run session).1, (exec run session).2) := by
  rfl

@[simp] theorem exec_write (closed : ε) (text : String) (session : Session) :
    exec (write closed text) session =
      (if session.output.accepts text then .ok () else .error closed,
        { session with output := session.output.write text }) := by
  unfold write
  rw [exec_bind, exec_get]
  dsimp only
  rw [exec_bind, exec_modify]
  dsimp only
  split <;> rfl

end Run

/-! ## §3 Runs over lists -/

/-- Steps one after the other, one for each item of a list. -/
inductive Steps {ι σ : Type} (step : ι → σ → σ → Prop) : List ι → σ → σ → Prop
  | nil (state : σ) : Steps step [] state state
  | cons {item : ι} {items : List ι} {first second last : σ} :
      step item first second → Steps step items second last → Steps step (item :: items) first last

/-- Steps seen through a view of the states. -/
theorem Steps.map {ι σ τ : Type} {step : ι → σ → σ → Prop} {step' : ι → τ → τ → Prop}
    (view : σ → τ)
    (h : ∀ item first second, step item first second → step' item (view first) (view second))
    {items : List ι} {first last : σ} (steps : Steps step items first last) :
    Steps step' items (view first) (view last) := by
  induction steps with
  | nil state => exact .nil _
  | cons hstep _ ih => exact .cons (h _ _ _ hstep) ih

/-- What every step keeps, all steps keep. -/
theorem Steps.invariant {ι σ : Type} {step : ι → σ → σ → Prop} {keeps : σ → σ → Prop}
    (hrefl : ∀ state, keeps state state)
    (htrans : ∀ first second last, keeps first second → keeps second last → keeps first last)
    (hstep : ∀ item first second, step item first second → keeps first second)
    {items : List ι} {first last : σ} (steps : Steps step items first last) :
    keeps first last := by
  induction steps with
  | nil state => exact hrefl state
  | cons h _ ih => exact htrans _ _ _ (hstep _ _ _ h) ih

/-- Steps for two lists, one behind the other. -/
theorem Steps.append {ι σ : Type} {step : ι → σ → σ → Prop} {items others : List ι}
    {first between last : σ} (h : Steps step items first between)
    (hothers : Steps step others between last) : Steps step (items ++ others) first last := by
  induction h with
  | nil state => exact hothers
  | cons hstep _ ih => exact .cons hstep (ih hothers)

/-- Steps for two lists go through a state between them. -/
theorem Steps.exists_of_append {ι σ : Type} {step : ι → σ → σ → Prop} {items others : List ι}
    {first last : σ} (h : Steps step (items ++ others) first last) :
    ∃ between, Steps step items first between ∧ Steps step others between last := by
  induction items generalizing first with
  | nil => exact ⟨first, .nil first, h⟩
  | cons item items ih =>
    cases h with
    | cons hstep hsteps =>
      obtain ⟨between, hitems, hothers⟩ := ih hsteps
      exact ⟨between, .cons hstep hitems, hothers⟩

/-- Steps that are each made by some choice are made by a list of choices. -/
theorem Steps.exists_choices {ι κ σ : Type} {step : κ → σ → σ → Prop} {key : κ → ι}
    {items : List ι} {first last : σ}
    (h : Steps (fun item before after => ∃ choice, key choice = item ∧ step choice before after)
      items first last) :
    ∃ choices, choices.map key = items ∧ Steps step choices first last := by
  induction h with
  | nil state => exact ⟨[], rfl, .nil state⟩
  | cons hstep _ ih =>
    obtain ⟨choice, rfl, hchoice⟩ := hstep
    obtain ⟨choices, rfl, hchoices⟩ := ih
    exact ⟨choice :: choices, rfl, .cons hchoice hchoices⟩

namespace Run

variable {ι : Type}

/-- A run over a list that succeeds has succeeded for each item, in order. -/
theorem steps_of_exec_mapM {run : ι → Run ε α} {items : List ι} {session after : Session}
    {results : List α} (h : exec (items.mapM run) session = (.ok results, after)) :
    Steps (fun item before after => ∃ result, exec (run item) before = (.ok result, after))
      items session after := by
  induction items generalizing session results with
  | nil =>
    obtain ⟨-, rfl⟩ : [] = results ∧ session = after := by simpa using h
    exact .nil _
  | cons item items ih =>
    -- the first item, then the others from the session that it leaves
    rw [List.mapM_cons] at h
    obtain ⟨result, between, hitem, h⟩ := exec_bind_eq_ok h
    obtain ⟨others, last, hitems, h⟩ := exec_bind_eq_ok h
    obtain ⟨-, rfl⟩ : result :: others = results ∧ last = after := by simpa using h
    exact .cons ⟨result, hitem⟩ (ih hitems)

/-- Where results tell their items, a run over a list that succeeds has gone from result to
result. -/
theorem steps_of_results {run : ι → Run ε α} {key : α → ι}
    (hkey : ∀ item before after result, exec (run item) before = (.ok result, after) →
      key result = item)
    {items : List ι} {session after : Session} {results : List α}
    (h : exec (items.mapM run) session = (.ok results, after)) :
    results.map key = items
      ∧ Steps (fun result before after => exec (run (key result)) before = (.ok result, after))
        results session after := by
  induction items generalizing session results with
  | nil =>
    obtain ⟨rfl, rfl⟩ : [] = results ∧ session = after := by simpa using h
    exact ⟨rfl, .nil _⟩
  | cons item items ih =>
    rw [List.mapM_cons] at h
    obtain ⟨result, between, hitem, h⟩ := exec_bind_eq_ok h
    obtain ⟨others, last, hitems, h⟩ := exec_bind_eq_ok h
    obtain ⟨rfl, rfl⟩ : result :: others = results ∧ last = after := by simpa using h
    obtain ⟨hothers, hsteps⟩ := ih hitems
    obtain rfl := hkey _ _ _ _ hitem
    exact ⟨by rw [List.map_cons, hothers], .cons hitem hsteps⟩

/-- A run over a list that fails has succeeded for the items before one of them, and has failed for
that one. -/
theorem exists_of_exec_mapM_error {run : ι → Run ε α} {items : List ι}
    {session after : Session} {error : ε}
    (h : exec (items.mapM run) session = (.error error, after)) :
    ∃ done item later results between, items = done ++ item :: later
      ∧ exec (done.mapM run) session = (.ok results, between)
      ∧ exec (run item) between = (.error error, after) := by
  induction items generalizing session with
  | nil => simp at h
  | cons item items ih =>
    rw [List.mapM_cons] at h
    -- the first item fails, or it succeeds and one of the others fails
    rcases exec_bind_eq_error h with hitem | ⟨result, between, hitem, h⟩
    · exact ⟨[], item, items, [], session, rfl, by simp, hitem⟩
    · rcases exec_bind_eq_error h with hitems | ⟨others, last, _, h⟩
      · obtain ⟨done, failing, later, results, last, rfl, hdone, hfailing⟩ := ih hitems
        -- the items that are done are then the first one and those of the rest
        refine ⟨item :: done, failing, later, result :: results, last, rfl, ?_, hfailing⟩
        rw [List.mapM_cons, exec_bind, hitem]
        dsimp only
        rw [exec_bind, hdone]
        rfl
      · simp at h

/-- A run over a list is the run of its first item, and then that over the others. -/
theorem exec_mapM_cons (run : ι → Run ε α) (item : ι) (items : List ι) (session : Session) :
    exec ((item :: items).mapM run) session =
      match exec (run item) session with
      | (.ok result, between) =>
        ((exec (items.mapM run) between).1.map (result :: ·), (exec (items.mapM run) between).2)
      | (.error error, between) => (.error error, between) := by
  rw [List.mapM_cons, exec_bind]
  rcases exec (run item) session with ⟨first, between⟩
  cases first with
  | error error => rfl
  | ok result =>
    dsimp only
    rw [exec_bind]
    rcases exec (items.mapM run) between with ⟨others, last⟩
    cases others <;> rfl

/-- A run over a list fails at the first item that fails. -/
theorem exec_mapM_error {run : ι → Run ε α} {done : List ι} (later : List ι) {item : ι}
    {session between after : Session} {results : List α} {error : ε}
    (hdone : exec (done.mapM run) session = (.ok results, between))
    (hitem : exec (run item) between = (.error error, after)) :
    exec ((done ++ item :: later).mapM run) session = (.error error, after) := by
  induction done generalizing session results with
  | nil =>
    obtain ⟨-, rfl⟩ : [] = results ∧ session = between := by simpa using hdone
    rw [List.nil_append, exec_mapM_cons, hitem]
  | cons first done ih =>
    rw [List.mapM_cons] at hdone
    obtain ⟨result, middle, hfirst, hdone⟩ := exec_bind_eq_ok hdone
    obtain ⟨others, last, hothers, hdone⟩ := exec_bind_eq_ok hdone
    obtain ⟨-, rfl⟩ : result :: others = results ∧ last = between := by simpa using hdone
    rw [List.cons_append, exec_mapM_cons, hfirst]
    dsimp only
    rw [ih hothers]
    rfl

/-- What each item keeps, a run over a list keeps, whether it succeeds or fails. -/
theorem exec_mapM_invariant {run : ι → Run ε α} {keeps : Session → Prop}
    (hstep : ∀ item session, keeps session → keeps (exec (run item) session).2)
    {items : List ι} {session : Session} (h : keeps session) :
    keeps (exec (items.mapM run) session).2 := by
  induction items generalizing session with
  | nil => exact h
  | cons item items ih =>
    rw [exec_mapM_cons]
    have hitem := hstep item session h
    revert hitem
    rcases exec (run item) session with ⟨result, between⟩
    intro hitem
    cases result with
    | error error => exact hitem
    | ok value => exact ih hitem

/-! ## §4 Runs side by side -/

/-- Two runs that give the same result and leave sessions that are related. -/
def Alongside (keeps : Session → Session → Prop) (first second : Except ε α × Session) : Prop :=
  first.1 = second.1 ∧ keeps first.2 second.2

/-- Runs over a list side by side.  What relates their sessions may depend on the items that are
left; it is kept by each item, whether it succeeds or fails. -/
theorem alongside_mapM {run run' : ι → Run ε α} (keeps : List ι → Session → Session → Prop)
    (hstep : ∀ item later first second, keeps (item :: later) first second →
      Alongside (keeps later) (exec (run item) first) (exec (run' item) second))
    {items : List ι} {first second : Session} (h : keeps items first second) :
    ∃ later, Alongside (keeps later) (exec (items.mapM run) first) (exec (items.mapM run') second)
      ∧ ∀ results, (exec (items.mapM run) first).1 = .ok results → later = [] := by
  induction items generalizing first second with
  | nil => exact ⟨[], ⟨rfl, h⟩, fun _ _ => rfl⟩
  | cons item items ih =>
    rw [exec_mapM_cons, exec_mapM_cons]
    have hitem := hstep item items first second h
    revert hitem
    -- the first item has one result in both runs: an error, where both stop with the items that are
    -- left, or a value, where the hypothesis goes on
    rcases exec (run item) first with ⟨result, between⟩
    rcases exec (run' item) second with ⟨result', between'⟩
    rintro ⟨rfl, hkept⟩
    cases result with
    | error error => exact ⟨items, ⟨rfl, hkept⟩, fun _ hok => by cases hok⟩
    | ok value =>
      obtain ⟨later, ⟨hothers, hlast⟩, hdone⟩ := ih hkept
      refine ⟨later, ⟨?_, hlast⟩, fun results hok => ?_⟩
      · dsimp only
        rw [hothers]
      · dsimp only at hok
        cases hall : (exec (items.mapM run) between).1 with
        | error error =>
          rw [hall] at hok
          cases hok
        | ok others => exact hdone others hall

end Run

end UpdateFeed
