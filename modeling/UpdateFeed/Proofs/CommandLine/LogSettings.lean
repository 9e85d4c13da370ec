import UpdateFeed.Proofs.CommandLine.Moves

/-!
# Settings of the log in front of a command line

A command line that says nothing about the log can be read with a setting of the log in front of
it: requests for detail, or a log level.  It then makes the same choices, apart from those about the
log, for which the setting is what counts.

The reading of such a line goes beside the reading without the setting, move by move.  This is known
from the end only: a line that says nothing about the log in the end has said nothing before.

- `LogSetting`: the settings, and the arguments that write them.
- `Carries`: a part of the reading that goes the same way behind a setting.
- `read_behind`: the choices of a command line behind a setting.
-/

namespace UpdateFeed

/-- The name of a level leads back to it. -/
theorem Log.Level.ofName?_name (level : Log.Level) : ofName? level.name = some level := by
  cases level <;> rfl

namespace CommandLine

/-! ## §1 Settings -/

/-- A setting of the log, as it is written in front of a command line. -/
inductive LogSetting where
  /-- A number of requests for detail, each an argument `-v`. -/
  | counted (count : Nat)
  /-- A level in the argument behind `--log-level`. -/
  | spaced (level : Log.Level)
  /-- A level in the same argument, behind an equals sign. -/
  | joined (level : Log.Level)

namespace LogSetting

/-- The arguments of a setting. -/
def arguments : LogSetting → List String
  | .counted count => List.replicate count "-v"
  | .spaced level => ["--log-level", level.name]
  | .joined level => ["--log-level=" ++ level.name]

/-- How often a setting asks for detail. -/
def verbosity : LogSetting → Nat
  | .counted count => min 255 count
  | _ => 0

/-- The level that a setting names. -/
def named? : LogSetting → Option Log.Level
  | .counted _ => none
  | .spaced level => some level
  | .joined level => some level

/-- The log level that a setting asks for, which is none if it says nothing. -/
def level? (setting : LogSetting) : Option Log.Level :=
  requestedLevel? setting.verbosity setting.named?

/-- The switches of a setting. -/
def given : LogSetting → List (Switch × String)
  | .counted 0 => []
  | .counted (_ + 1) => [(.verbose, "")]
  | .spaced level => [(.logLevel, level.name)]
  | .joined level => [(.logLevel, level.name)]

end LogSetting

/-- Whether a switch says something about the log. -/
def Switch.setsLog (switch : Switch) : Bool := switch = .verbose ∨ switch = .logLevel

namespace LogSetting

theorem setsLog_of_mem_given {setting : LogSetting} {entry : Switch × String}
    (h : entry ∈ setting.given) : entry.1.setsLog := by
  rcases setting with (_ | _) | _ | _ <;> simp_all [given, Switch.setsLog]

theorem length_given_le (setting : LogSetting) : setting.given.length ≤ 1 := by
  rcases setting with (_ | _) | _ | _ <;> simp [given]

/-- The level that a setting names is read from its switches. -/
theorem named?_eq (setting : LogSetting) :
    (setting.given.lookup .logLevel).bind Log.Level.ofName? = setting.named? := by
  cases setting with
  | counted count => cases count <;> rfl
  | spaced level => exact Log.Level.ofName?_name level
  | joined level => exact Log.Level.ofName?_name level

end LogSetting

namespace Progress

variable {progress next : Progress} {switch : Switch} {value : String} {setting : LogSetting}

/-! ## §2 Readings behind a setting -/

/-- The same progress behind a setting. -/
def behind (setting : LogSetting) (progress : Progress) : Progress :=
  { progress with given := setting.given ++ progress.given, verbosity := setting.verbosity }

/-- Whether nothing has been said about the log. -/
structure Quiet (progress : Progress) : Prop where
  uncounted : progress.verbosity = 0
  given : ∀ entry ∈ progress.given, entry.1.setsLog = false
  waiting : ∀ entry, progress.waiting? = some entry → entry.1.setsLog = false

/-- A part of the reading that goes the same way behind a setting, if nothing about the log is said
up to its end. -/
def Carries (setting : LogSetting) (part : Progress → Except Refusal Progress) : Prop :=
  ∀ progress next, part progress = .ok next → next.Quiet →
    progress.Quiet ∧ part (progress.behind setting) = .ok (next.behind setting)

theorem Carries.bind {first second : Progress → Except Refusal Progress}
    (h₁ : Carries setting first) (h₂ : Carries setting second) :
    Carries setting fun progress => first progress >>= second := by
  intro progress next h hquiet
  obtain ⟨between, hfirst, hsecond⟩ := exists_of_bind_eq_ok h
  obtain ⟨hbetween, hcarried⟩ := h₂ _ _ hsecond hquiet
  obtain ⟨hprogress, hstart⟩ := h₁ _ _ hfirst hbetween
  refine ⟨hprogress, ?_⟩
  show (first (progress.behind setting) >>= second) = _
  rw [hstart, ok_bind, hcarried]

/-- Parts one after the other. -/
theorem Carries.foldlM {ι : Type} {part : Progress → ι → Except Refusal Progress} {items : List ι}
    (h : ∀ item, Carries setting fun progress => part progress item) :
    Carries setting fun progress => items.foldlM part progress := by
  induction items with
  | nil =>
    intro progress next hnext hquiet
    obtain rfl := Except.ok.inj hnext
    exact ⟨hquiet, rfl⟩
  | cons item items ih =>
    simp only [List.foldlM_cons]
    exact (h item).bind ih

/-- Among switches about the log no other one is found, and the other way round. -/
theorem lookup_eq_none_of_setsLog {entries : List (Switch × String)}
    (h : ∀ entry ∈ entries, entry.1.setsLog ≠ switch.setsLog) : entries.lookup switch = none := by
  rw [List.lookup_eq_none_iff]
  intro entry hmem
  rw [bne_iff_ne]
  rintro rfl
  exact h entry hmem rfl

/-- A setting does not give a switch that says nothing about the log. -/
theorem lookup_given_append {given : List (Switch × String)} (h : switch.setsLog = false) :
    (setting.given ++ given).lookup switch = given.lookup switch := by
  have hnone : setting.given.lookup switch = none := by
    apply lookup_eq_none_of_setsLog
    intro entry hmem
    simp [LogSetting.setsLog_of_mem_given hmem, h]
  rw [List.lookup_append, hnone, Option.none_or]

theorem carries_store (switch : Switch) (value : String) :
    Carries setting fun progress => progress.store switch value := by
  intro progress next h hquiet
  obtain ⟨hfresh, hvalue, rfl⟩ := store_eq_ok_iff.mp h
  have hswitch : switch.setsLog = false := hquiet.given (switch, value) (by simp)
  refine ⟨⟨hquiet.uncounted, fun entry hmem => ?_, hquiet.waiting⟩, ?_⟩
  · exact hquiet.given entry (List.mem_append_left _ hmem)
  · apply store_eq_ok_iff.mpr
    refine ⟨?_, hvalue, ?_⟩
    · exact (lookup_given_append hswitch).trans hfresh
    · simp [behind]

theorem carries_settle : Carries setting settle := by
  intro progress next h hquiet
  rcases settle_eq_ok_iff.mp h with ⟨hwaiting, rfl⟩ | ⟨switch, value, hwaiting, hstore⟩
  · exact ⟨hquiet, settle_eq_ok_iff.mpr (.inl ⟨hwaiting, rfl⟩)⟩
  · obtain ⟨hfree, hcarried⟩ := carries_store switch value _ _ hstore hquiet
    refine ⟨⟨hfree.uncounted, hfree.given, fun entry hentry => ?_⟩, ?_⟩
    · -- the switch that waits is stored, so it says nothing about the log
      obtain rfl := Option.some.inj (hwaiting.symm.trans hentry)
      obtain ⟨-, -, rfl⟩ := store_eq_ok_iff.mp hstore
      exact hquiet.given (switch, value) (by simp)
    · exact settle_eq_ok_iff.mpr (.inr ⟨switch, value, hwaiting, hcarried⟩)

theorem carries_takeFlag (switch : Switch) (long : Bool) :
    Carries setting fun progress => progress.takeFlag switch long := by
  refine carries_settle.bind fun progress next h hquiet => ?_
  cases switch with
  | help => cases h
  | verbose =>
    -- a request for detail is counted, so something is said
    obtain rfl := Except.ok.inj h
    have hcount : min 255 (progress.verbosity + 1) = 0 := hquiet.uncounted
    omega
  | _ => exact carries_store _ _ _ _ h hquiet

theorem carries_takeValued (switch : Switch) (value? : Option String) :
    Carries setting fun progress => progress.takeValued switch value? := by
  intro progress next h hquiet
  obtain ⟨settled, hsettle, hnext⟩ := exists_of_bind_eq_ok h
  cases value? with
  | some value =>
    exact carries_settle.bind (carries_store switch value) progress next h hquiet
  | none =>
    -- the switch waits, and no other one does when it comes
    obtain rfl := Except.ok.inj hnext
    have hsettled : settled.Quiet := by
      refine ⟨hquiet.uncounted, hquiet.given, fun entry hentry => ?_⟩
      cases (waiting_of_settle hsettle).symm.trans hentry
    obtain ⟨hprogress, hcarried⟩ := carries_settle _ _ hsettle hsettled
    refine ⟨hprogress, ?_⟩
    show ((progress.behind setting).settle >>= _) = _
    rw [hcarried]
    rfl

theorem carries_takePlain (argument : String) :
    Carries setting fun progress => progress.takePlain argument := by
  intro progress next h hquiet
  simp only [takePlain] at h
  split at h
  · rename_i switch hplain hwaiting
    obtain rfl := Except.ok.inj h
    refine ⟨⟨hquiet.uncounted, hquiet.given, fun entry hentry => ?_⟩, ?_⟩
    · obtain rfl := Option.some.inj (hwaiting.symm.trans hentry)
      exact hquiet.waiting (switch, some argument) rfl
    · simp [takePlain, behind, hplain, hwaiting]
  · cases h

theorem carries_make (move : Move) : Carries setting fun progress => progress.make move := by
  cases move with
  | flag switch long => exact carries_takeFlag switch long
  | valued switch takes value? => exact carries_takeValued switch value?
  | word argument => exact carries_takePlain argument
  | close =>
    intro progress next h hquiet
    obtain rfl := Except.ok.inj h
    exact ⟨⟨hquiet.uncounted, hquiet.given, hquiet.waiting⟩, rfl⟩
  | refuse refusal =>
    intro progress next h hquiet
    cases h

theorem carries_take (argument : String) :
    Carries setting fun progress => progress.take argument := by
  intro progress next h hquiet
  obtain ⟨moves, hmoves⟩ := exists_moves progress.plain argument
  dsimp only at h ⊢
  rw [hmoves progress rfl] at h
  rw [hmoves (progress.behind setting) rfl]
  exact Carries.foldlM carries_make progress next h hquiet

/-! ## §3 The end of a command line -/

/-- The choices of the switches that are settled. -/
def choices (settled : Progress) : Choices :=
  { target? := settled.given.lookup .target
    version? := settled.given.lookup .version
    notes? := settled.given.lookup .notes
    requireSignature := (settled.given.lookup .signature).isSome
    dryRun := (settled.given.lookup .dryRun).isSome
    config? := settled.given.lookup .config
    directory? := settled.given.lookup .directory
    verbosity := settled.verbosity
    logLevel? := (settled.given.lookup .logLevel).bind Log.Level.ofName? }

/-- A command line gives choices when it does not say two things about the log. -/
theorem finish_eq_ok_iff {chosen : Choices} : progress.finish = .ok chosen ↔
    ∃ settled, progress.settle = .ok settled
      ∧ (settled.given.filter fun entry => entry.1.setsLog).length ≤ 1
      ∧ settled.choices = chosen := by
  unfold finish
  cases progress.settle with
  | error refusal => simp [error_bind]
  | ok settled =>
    rw [ok_bind]
    simp only [Switch.setsLog, Bool.decide_or]
    rcases hfilter : settled.given.filter fun entry =>
      decide (entry.1 = .verbose) || decide (entry.1 = .logLevel) with
      _ | ⟨first, _ | ⟨second, rest⟩⟩
    · simp [hfilter, choices, pure, Except.pure]
    · simp [hfilter, choices, pure, Except.pure]
    · simp [hfilter]

/-- What has nothing about the log in its choices has said nothing. -/
theorem quiet_of_choices (h : progress.Accounted) (hwaiting : progress.waiting? = none)
    (hcount : progress.choices.verbosity = 0) (hlevel : progress.choices.logLevel? = none) :
    progress.Quiet := by
  refine ⟨hcount, fun entry hmem => ?_, fun entry hentry => ?_⟩
  · obtain ⟨switch, value⟩ := entry
    cases hswitch : switch.setsLog with
    | false => rfl
    | true =>
      exfalso
      rcases of_decide_eq_true hswitch with rfl | rfl
      · have hpos := h.counted value hmem
        have hzero : progress.verbosity = 0 := hcount
        omega
      · -- the level that is found is one of those that were given, and is a level
        cases hfound : progress.given.lookup .logLevel with
        | none =>
          have hother := List.lookup_eq_none_iff.mp hfound _ hmem
          simp at hother
        | some found =>
          obtain ⟨before, after, hgiven, -⟩ := List.lookup_eq_some_iff.mp hfound
          have hnamed := h.named found (by simp [hgiven])
          have hnone : (progress.given.lookup .logLevel).bind Log.Level.ofName? = none := hlevel
          rw [hfound, Option.bind_some] at hnone
          rw [hnone] at hnamed
          cases hnamed
  · cases hwaiting.symm.trans hentry

/-- The end of a command line that says nothing about the log, behind a setting. -/
theorem finish_behind {chosen : Choices} (h : progress.Accounted)
    (hfinish : progress.finish = .ok chosen) (hcount : chosen.verbosity = 0)
    (hlevel : chosen.logLevel? = none) :
    progress.Quiet
      ∧ (progress.behind setting).finish =
        .ok { chosen with verbosity := setting.verbosity, logLevel? := setting.named? } := by
  obtain ⟨settled, hsettle, -, rfl⟩ := finish_eq_ok_iff.mp hfinish
  have hquiet : settled.Quiet :=
    quiet_of_choices (h.settle hsettle) (waiting_of_settle hsettle) hcount hlevel
  obtain ⟨hprogress, hcarried⟩ := carries_settle _ _ hsettle hquiet
  refine ⟨hprogress, finish_eq_ok_iff.mpr ⟨settled.behind setting, hcarried, ?_, ?_⟩⟩
  · -- the setting is all that is said about the log
    have hnone : (settled.given.filter fun entry => entry.1.setsLog) = [] := by
      rw [List.filter_eq_nil_iff]
      intro entry hmem
      simp [hquiet.given entry hmem]
    show ((setting.given ++ settled.given).filter fun entry => entry.1.setsLog).length ≤ 1
    rw [List.filter_append, hnone, List.append_nil]
    exact Nat.le_trans (List.length_filter_le _ _) setting.length_given_le
  · have hnone : settled.given.lookup .logLevel = none := by
      apply lookup_eq_none_of_setsLog
      intro entry hmem
      rw [hquiet.given entry hmem]
      decide
    -- only the choices about the log look at the switches of the setting
    have hlookup : ∀ switch : Switch, switch.setsLog = false →
        (settled.behind setting).given.lookup switch = settled.given.lookup switch :=
      fun switch hswitch => lookup_given_append hswitch
    unfold choices
    rw [hlookup .target rfl, hlookup .version rfl, hlookup .notes rfl, hlookup .signature rfl,
      hlookup .dryRun rfl, hlookup .config rfl, hlookup .directory rfl]
    rw [← setting.named?_eq, show (settled.behind setting).given = setting.given ++ settled.given
      from rfl, List.lookup_append, hnone, Option.or_none]
    rfl

/-! ## §4 Settling early -/

/-- Results of which the second is the first one, but for a switch that it has settled already. -/
def Ahead (late early : Except Refusal Progress) : Prop :=
  late = early ∨ ∃ waiting settled, late = .ok waiting ∧ early = .ok settled
    ∧ waiting.settle = .ok settled

/-- What a row of parts reads is ahead if each part stays ahead. -/
theorem ahead_foldlM {ι : Type} {part : Progress → ι → Except Refusal Progress}
    (hpart : ∀ waiting settled item, waiting.settle = .ok settled →
      Ahead (part waiting item) (part settled item))
    {items : List ι} {waiting settled : Progress} (h : waiting.settle = .ok settled) :
    Ahead (items.foldlM part waiting) (items.foldlM part settled) := by
  induction items generalizing waiting settled with
  | nil => exact .inr ⟨waiting, settled, rfl, rfl, h⟩
  | cons item items ih =>
    rw [List.foldlM_cons, List.foldlM_cons]
    rcases hpart _ _ item h with heq | ⟨next, next', hnext, hnext', hsettle⟩
    · rw [heq]
      exact .inl rfl
    · rw [hnext, hnext', ok_bind, ok_bind]
      exact ih hsettle

theorem ahead_make {waiting settled : Progress} (move : Move) (h : waiting.settle = .ok settled) :
    Ahead (waiting.make move) (settled.make move) := by
  have hsettled := settle_of_settle h
  cases move with
  | flag switch long =>
    left
    show (waiting.settle >>= _) = (settled.settle >>= _)
    rw [h, hsettled]
  | valued switch takes value? =>
    left
    show (waiting.settle >>= _) = (settled.settle >>= _)
    rw [h, hsettled]
  | word argument =>
    left
    rcases settle_eq_ok_iff.mp h with ⟨-, rfl⟩ | ⟨switch, value, hwaiting, -⟩
    · rfl
    · -- the switch that waits has its value, so neither of them takes another one
      simp [Progress.make, takePlain, hwaiting, waiting_of_settle h]
  | close =>
    right
    refine ⟨_, _, rfl, rfl, ?_⟩
    rcases settle_eq_ok_iff.mp h with ⟨hwaiting, rfl⟩ | ⟨switch, value, hwaiting, hstore⟩
    · exact settle_eq_ok_iff.mpr (.inl ⟨hwaiting, rfl⟩)
    · obtain ⟨hfresh, hvalue, rfl⟩ := store_eq_ok_iff.mp hstore
      exact settle_eq_ok_iff.mpr
        (.inr ⟨switch, value, hwaiting, store_eq_ok_iff.mpr ⟨hfresh, hvalue, rfl⟩⟩)
  | refuse refusal => exact .inl rfl

/-- Whether a switch is settled as soon as it has its value makes no difference to what is read. -/
theorem read_settled {arguments : List String} {waiting settled : Progress}
    (h : waiting.settle = .ok settled) :
    (arguments.foldlM take waiting >>= finish) = (arguments.foldlM take settled >>= finish) := by
  have hplain : ∀ {waiting settled : Progress}, waiting.settle = .ok settled →
      settled.plain = waiting.plain := by
    intro waiting settled h
    rcases settle_eq_ok_iff.mp h with ⟨-, rfl⟩ | ⟨switch, value, -, hstore⟩
    · rfl
    · obtain ⟨-, -, rfl⟩ := store_eq_ok_iff.mp hstore
      rfl
  -- any argument makes the same moves from both states, and moves keep one state ahead of the
  -- other
  have htake : ∀ (waiting settled : Progress) (argument : String),
      waiting.settle = .ok settled → Ahead (waiting.take argument) (settled.take argument) := by
    intro waiting settled argument h
    obtain ⟨moves, hmoves⟩ := exists_moves waiting.plain argument
    rw [hmoves waiting rfl, hmoves settled (hplain h)]
    exact ahead_foldlM (fun _ _ => ahead_make) h
  rcases ahead_foldlM htake h with heq | ⟨last, last', hlast, hlast', hsettle⟩
  · rw [heq]
  · rw [hlast, hlast', ok_bind, ok_bind]
    show (last.settle >>= _) = (last'.settle >>= _)
    rw [hsettle, settle_of_settle hsettle]

end Progress

/-! ## §5 Whole command lines -/

open Progress

/-- A request for detail is counted. -/
theorem take_request {progress : Progress} (hplain : progress.plain = false)
    (hwaiting : progress.waiting? = none) :
    progress.take "-v" = .ok progress.countVerbose := by
  have hsettle : progress.settle = .ok progress := settle_eq_ok_iff.mpr (.inl ⟨hwaiting, rfl⟩)
  have hletter : Switch.ofLetter? 'v' = some .verbose := rfl
  have hflag : progress.takeFlag .verbose false = .ok progress.countVerbose := by
    show (progress.settle >>= _) = _
    rw [hsettle]
    rfl
  show (if progress.plain then _ else progress.takeLetters ['v']) = _
  rw [hplain]
  simp [takeLetters, hletter, hflag, Switch.takesValue, Switch.valueName?]

/-- Requests for detail at the start of a command line. -/
theorem foldlM_requests (count : Nat) :
    (List.replicate count "-v").foldlM take start = .ok (start.behind (.counted count)) := by
  induction count with
  | zero => rfl
  | succ count ih =>
    rw [List.replicate_succ', List.foldlM_append, ih, ok_bind, List.foldlM_cons,
      take_request rfl rfl]
    -- a request repeats the switch, and the count is one more up to its bound
    have hcount : min 255 (min 255 count + 1) = min 255 (count + 1) := by omega
    cases count with
    | zero => rfl
    | succ count =>
      show Except.ok (Progress.mk _ (min 255 (min 255 (count + 1) + 1)) _ _) = _
      rw [hcount]
      rfl

/-- A command line that says nothing about the log makes the same choices behind a setting, apart
from those about the log. -/
theorem read_behind {arguments : List String} {choices : Choices}
    (hread : read arguments = .ok choices) (hcount : choices.verbosity = 0)
    (hlevel : choices.logLevel? = none) (setting : LogSetting) :
    read (setting.arguments ++ arguments) =
      .ok { choices with verbosity := setting.verbosity, logLevel? := setting.named? } := by
  obtain ⟨last, hlast, hfinish⟩ := exists_of_bind_eq_ok hread
  -- what is left to read behind the setting
  have hrest : (arguments.foldlM take (start.behind setting) >>= finish) =
      .ok { choices with verbosity := setting.verbosity, logLevel? := setting.named? } := by
    obtain ⟨hquiet, hbehind⟩ := finish_behind (accounted_of_foldlM hlast) hfinish hcount hlevel
    have hcarried : arguments.foldlM take (start.behind setting) = .ok (last.behind setting) :=
      (Carries.foldlM carries_take start last hlast hquiet).2
    rw [hcarried, ok_bind, hbehind]
  unfold read
  rw [List.foldlM_append, bind_assoc]
  -- each setting is settled, at once or when the next switch comes
  cases setting with
  | counted count =>
    have hcounted := foldlM_requests count
    rw [LogSetting.arguments, hcounted]
    exact hrest
  | joined level =>
    have hjoined : (LogSetting.joined level).arguments.foldlM take start =
        .ok (start.behind (.joined level)) := by
      cases level <;> rfl
    rw [hjoined]
    exact hrest
  | spaced level =>
    have hspaced : (LogSetting.spaced level).arguments.foldlM take start =
        .ok { start with waiting? := some (.logLevel, some level.name) } := by
      cases level <;> rfl
    have hsettle : settle { start with waiting? := some (.logLevel, some level.name) } =
        .ok (start.behind (.spaced level)) := by
      cases level <;> rfl
    rw [hspaced]
    exact (read_settled hsettle).trans hrest

end CommandLine

end UpdateFeed
