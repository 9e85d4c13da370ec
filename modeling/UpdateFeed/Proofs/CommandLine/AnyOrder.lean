import Mathlib.Data.List.Induction
import UpdateFeed.Proofs.CommandLine.Writing

/-!
# Settings in any order

What a command line chooses does not depend on the order in which its settings are written, nor on
how each of them is written.  What is settled is known by the values of each switch: the first one
that was written, and for requests for detail also their number.

Settings that cannot be given together are refused in every order: a switch that is given twice,
requests for detail apart, and a log level beside such requests.

- `Choices.settings`: the settings that make some choices.
- `records_or_repeated`: what settling some settings comes to.
- `read_written`: the choices of a written command line, and its conflicts.
-/

namespace UpdateFeed.CommandLine

/-! ## §1 The values of a switch -/

/-- The values that a switch is given, in order. -/
def valuesOf (settings : List Setting) (switch : Switch) : List String :=
  (settings.filter (·.1 = switch)).map Prod.snd

theorem valuesOf_cons (setting : Setting) (settings : List Setting) (switch : Switch) :
    valuesOf (setting :: settings) switch =
      (if setting.1 = switch then [setting.2] else []) ++ valuesOf settings switch := by
  unfold valuesOf
  by_cases h : setting.1 = switch <;> simp [h]

theorem valuesOf_append (settings others : List Setting) (switch : Switch) :
    valuesOf (settings ++ others) switch = valuesOf settings switch ++ valuesOf others switch := by
  simp [valuesOf]

theorem valuesOf_concat (settings : List Setting) (setting : Setting) (switch : Switch) :
    valuesOf (settings ++ [setting]) switch =
      valuesOf settings switch ++ if setting.1 = switch then [setting.2] else [] := by
  rw [valuesOf_append, valuesOf_cons]
  simp [valuesOf]

theorem lookup_eq_head? (settings : List Setting) (switch : Switch) :
    settings.lookup switch = (valuesOf settings switch).head? := by
  induction settings with
  | nil => rfl
  | cons setting settings ih =>
    obtain ⟨other, value⟩ := setting
    rw [valuesOf_cons, List.lookup_cons]
    by_cases h : other = switch
    · subst h
      simp
    · have hne : (switch == other) = false := by simpa using Ne.symm h
      simp [h, hne, ih]

/-- Switches can be taken away from others without a change to what these are given. -/
theorem valuesOf_filter (keep : Switch → Bool) {switch : Switch} (h : keep switch)
    (settings : List Setting) :
    valuesOf (settings.filter fun setting => keep setting.1) switch = valuesOf settings switch := by
  unfold valuesOf
  rw [List.filter_filter]
  congr 2
  funext setting
  by_cases hswitch : setting.1 = switch <;> simp [hswitch, h]

/-! ## §2 Choices as settings -/

namespace Choices

/-- The values that a switch is given for some choices. -/
def values (choices : Choices) : Switch → List String
  | .target => choices.target?.toList
  | .version => choices.version?.toList
  | .notes => choices.notes?.toList
  | .signature => if choices.requireSignature then [""] else []
  | .dryRun => if choices.dryRun then [""] else []
  | .config => choices.config?.toList
  | .directory => choices.directory?.toList
  | .verbose => List.replicate choices.verbosity ""
  | .logLevel => choices.logLevel?.toList.map Log.Level.name
  | .help => []

/-- The settings that make some choices, each request for detail being one. -/
def settings (choices : Choices) : List Setting :=
  Switch.all.flatMap fun switch => (choices.values switch).map (switch, ·)

variable {choices : Choices} {switch : Switch}

/-- Only requests for detail are made more than once. -/
theorem length_values_le (choices : Choices) (hswitch : switch ≠ .verbose) :
    (choices.values switch).length ≤ 1 := by
  have hoption : ∀ option : Option String, option.toList.length ≤ 1 := by
    intro option
    cases option <;> simp
  have hflag : ∀ given : Bool, (if given then [""] else []).length ≤ 1 := by
    intro given
    cases given <;> simp
  cases switch with
  | verbose => exact absurd rfl hswitch
  | signature => exact hflag _
  | dryRun => exact hflag _
  | logLevel =>
    rw [values, List.length_map]
    cases choices.logLevel? <;> simp
  | help => exact Nat.zero_le 1
  | _ => exact hoption _

theorem valuesOf_settings (choices : Choices) (switch : Switch) :
    valuesOf choices.settings switch = choices.values switch := by
  -- for a part of the switches first, by induction: a switch contributes its values at its own
  -- place and nothing at any other
  have hsome : ∀ switches : List Switch, switches.Nodup →
      valuesOf (switches.flatMap fun other => (choices.values other).map (other, ·)) switch =
        if switch ∈ switches then choices.values switch else [] := by
    intro switches hnodup
    induction switches with
    | nil => rfl
    | cons first switches ih =>
      obtain ⟨hfirst, hothers⟩ := List.nodup_cons.mp hnodup
      have hown : valuesOf ((choices.values first).map (first, ·)) switch =
          if first = switch then choices.values switch else [] := by
        unfold valuesOf
        by_cases h : first = switch
        · subst h
          rw [if_pos rfl, List.filter_eq_self.mpr (by simp), List.map_map]
          exact List.map_id _
        · rw [if_neg h, List.filter_eq_nil_iff.mpr (by simp [h]), List.map_nil]
      rw [List.flatMap_cons, valuesOf_append, hown, ih hothers]
      by_cases h : first = switch
      · subst h
        simp [hfirst]
      · simp [h, Ne.symm h]
  have hall : switch ∈ Switch.all := by
    cases switch <;> decide
  rw [settings, hsome _ (by decide), if_pos hall]

/-- Settings that make some choices, in any order, give each switch the values of the choices. -/
theorem valuesOf_of_perm {settings : List Setting} (h : settings.Perm choices.settings)
    (switch : Switch) :
    valuesOf settings switch = choices.values switch := by
  have hperm : (valuesOf settings switch).Perm (choices.values switch) := by
    rw [← choices.valuesOf_settings]
    exact (h.filter _).map _
  by_cases hswitch : switch = .verbose
  · subst hswitch
    exact List.perm_replicate.mp hperm
  · -- there is one value at most, so the order is the same
    have hlength := choices.length_values_le hswitch
    match hvalues : choices.values switch with
    | [] => exact List.perm_nil.mp (hvalues ▸ hperm)
    | [value] => exact List.perm_singleton.mp (hvalues ▸ hperm)
    | _ :: _ :: _ => simp [hvalues] at hlength

end Choices

/-! ## §3 Settling settings -/

/-- Two switches about the log that are settled exclude each other. -/
theorem Progress.finish_of_exclusive {progress : Progress} {first second : Setting}
    {rest : List Setting} (hfree : progress.waiting? = none)
    (hentries : (progress.given.filter fun entry => entry.1.setsLog) = first :: second :: rest) :
    progress.finish = .error (.mistake (.exclusive first.1 second.1)) := by
  simp only [Switch.setsLog, Bool.decide_or] at hentries
  unfold finish
  rw [settle_of_free hfree, ok_bind]
  simp [hentries]

/-- What is settled of some settings: of each switch the first value, and the number of requests for
detail up to its bound. -/
structure Records (settings : List Setting) (progress : Progress) : Prop where
  free : progress.waiting? = none
  given : ∀ switch, valuesOf progress.given switch = (valuesOf settings switch).take 1
  counted : progress.verbosity = min 255 (valuesOf settings .verbose).length
  blank : ∀ value ∈ valuesOf settings .verbose, value = ""

/-- Whether no switch is given twice, requests for detail apart. -/
def Once (settings : List Setting) : Prop :=
  ∀ switch, switch ≠ .verbose → (valuesOf settings switch).length ≤ 1

/-- What settings cannot be given together: a switch twice, requests for detail apart, and a log
level beside such requests. -/
inductive Conflict (settings : List Setting) : Mistake → Prop
  | repeated {switch : Switch} (counts : switch ≠ .verbose)
      (twice : 1 < (valuesOf settings switch).length) : Conflict settings (.repeated switch)
  /-- The one that was settled first is named first. -/
  | exclusive {first second : Switch}
      (pair : first = .verbose ∧ second = .logLevel ∨ first = .logLevel ∧ second = .verbose)
      (counted : valuesOf settings .verbose ≠ []) (named : valuesOf settings .logLevel ≠ []) :
      Conflict settings (.exclusive first second)

namespace Records

open Progress

variable {settings : List Setting} {progress next : Progress} {switch : Switch} {value : String}

theorem start : Records [] .start where
  free := rfl
  given _ := rfl
  counted := rfl
  blank _ h := by cases h

/-- A switch that is looked for among those that are settled has its first value. -/
theorem lookup_given (h : Records settings progress) (switch : Switch) :
    progress.given.lookup switch = (valuesOf settings switch).head? := by
  rw [lookup_eq_head?, h.given, List.head?_take]
  rfl

/-- A further request for detail is counted, and takes the place of the ones before it. -/
theorem countVerbose (h : Records settings progress) :
    Records (settings ++ [(.verbose, "")]) progress.countVerbose where
  free := h.free
  given other := by
    show valuesOf (progress.given.filter (·.1 ≠ .verbose) ++ [(.verbose, "")]) other = _
    rw [valuesOf_concat, valuesOf_concat]
    by_cases hother : Switch.verbose = other
    · subst hother
      have hnone : valuesOf (progress.given.filter (·.1 ≠ .verbose)) .verbose = [] := by
        simp [valuesOf]
      rw [hnone, if_pos rfl]
      -- all requests are the same, so the last one stands for the first
      cases hvalues : valuesOf settings .verbose with
      | nil => rfl
      | cons first values =>
        obtain rfl := h.blank first (by simp [hvalues])
        rfl
    · have hsame : valuesOf (progress.given.filter (·.1 ≠ .verbose)) other =
          valuesOf progress.given other :=
        valuesOf_filter (fun other => other ≠ .verbose) (by simpa using Ne.symm hother) _
      rw [hsame, h.given, if_neg hother, List.append_nil, List.append_nil]
  counted := by
    show min 255 (progress.verbosity + 1) = _
    rw [h.counted, valuesOf_concat, if_pos rfl, List.length_append, List.length_singleton]
    omega
  blank value hvalue := by
    rw [valuesOf_concat, if_pos rfl] at hvalue
    rcases List.mem_append.mp hvalue with hvalue | hvalue
    · exact h.blank value hvalue
    · exact List.mem_singleton.mp hvalue

/-- A switch that was not given before is stored behind the others. -/
theorem store (h : Records settings progress) (hswitch : switch ≠ .verbose)
    (hnone : valuesOf settings switch = []) (value : String) :
    Records (settings ++ [(switch, value)])
      { progress with given := progress.given ++ [(switch, value)] } := by
  have hverbose : valuesOf (settings ++ [(switch, value)]) .verbose =
      valuesOf settings .verbose := by
    rw [valuesOf_concat, if_neg hswitch, List.append_nil]
  refine ⟨h.free, fun other => ?_, hverbose.symm ▸ h.counted, hverbose.symm ▸ h.blank⟩
  rw [valuesOf_concat, valuesOf_concat, h.given]
  by_cases hother : switch = other
  · subst hother
    simp [hnone]
  · simp [hother]

/-- A further setting is settled, unless its switch was given before and is no request for detail.
-/
theorem record (h : Records settings progress) (hadmits : switch.Admits value) :
    (switch ≠ .verbose ∧ valuesOf settings switch ≠ []
        ∧ progress.record (switch, value) = .error (.mistake (.repeated switch)))
      ∨ (switch = .verbose ∨ valuesOf settings switch = [])
        ∧ ∃ next, progress.record (switch, value) = .ok next
          ∧ Records (settings ++ [(switch, value)]) next := by
  by_cases hswitch : switch = .verbose
  · subst hswitch
    obtain rfl : value = "" := hadmits
    exact .inr ⟨.inl rfl, _, rfl, h.countVerbose⟩
  · have hlookup := h.lookup_given switch
    have hrecord : progress.record (switch, value) = progress.store switch value := if_neg hswitch
    rw [hrecord]
    -- the lookup says whether the switch was stored before, and that alone decides the outcome
    cases hvalues : valuesOf settings switch with
    | cons first values =>
      left
      refine ⟨hswitch, by simp, ?_⟩
      unfold Progress.store
      rw [hlookup, hvalues]
      rfl
    | nil =>
      right
      rw [hvalues] at hlookup
      have hvalid := Switch.valueMistake?_of_admits hadmits
      exact ⟨.inr rfl, _, store_eq_ok_iff.mpr ⟨hlookup, hvalid, rfl⟩, h.store hswitch hvalues value⟩

/-- The end of a command line: its choices, or two switches about the log that exclude each other.
-/
theorem finish (h : Records settings progress) :
    ((valuesOf settings .verbose = [] ∨ valuesOf settings .logLevel = [])
        ∧ progress.finish = .ok progress.choices)
      ∨ ∃ first second, Conflict settings (.exclusive first second)
        ∧ progress.finish = .error (.mistake (.exclusive first second)) := by
  have hsettle := settle_of_free h.free
  -- each switch about the log that was given is there once
  have hvalues : ∀ switch : Switch, switch.setsLog →
      valuesOf (progress.given.filter fun entry => entry.1.setsLog) switch =
        (valuesOf settings switch).take 1 :=
    fun switch hswitch => (valuesOf_filter _ hswitch _).trans (h.given switch)
  have hlog : ∀ entry ∈ progress.given.filter fun entry => entry.1.setsLog, entry.1.setsLog :=
    fun entry hentry => (List.mem_filter.mp hentry).2
  rcases hentries : progress.given.filter fun entry => entry.1.setsLog with
    _ | ⟨⟨first, value⟩, _ | ⟨⟨second, other⟩, rest⟩⟩
  · left
    rw [hentries] at hvalues
    have hcounts : [] = (valuesOf settings .verbose).take 1 := hvalues .verbose rfl
    refine ⟨.inl ?_, finish_eq_ok_iff.mpr ⟨progress, hsettle, by simp [hentries], rfl⟩⟩
    simpa using hcounts.symm
  · left
    refine ⟨?_, finish_eq_ok_iff.mpr ⟨progress, hsettle, by simp [hentries], rfl⟩⟩
    rw [hentries] at hvalues
    by_cases hfirst : first = .verbose
    · right
      have hlevel := hvalues .logLevel rfl
      simpa [valuesOf, hfirst] using hlevel.symm
    · left
      have hcounts := hvalues .verbose rfl
      simpa [valuesOf, hfirst] using hcounts.symm
  · right
    rw [hentries] at hvalues hlog
    have hfirst : first.setsLog := hlog (first, value) (by simp)
    have hsecond : second.setsLog := hlog (second, other) (by simp)
    have hdistinct : first ≠ second := by
      -- the same switch twice would have two values
      rintro rfl
      have hlength := congrArg List.length (hvalues first hfirst)
      simp only [valuesOf_cons, if_pos, List.length_append, List.length_singleton,
        List.length_take] at hlength
      omega
    have hgiven : valuesOf settings first ≠ [] ∧ valuesOf settings second ≠ [] := by
      constructor
      · intro hnone
        have hvalue := hvalues first hfirst
        simp [valuesOf_cons, hnone] at hvalue
      · intro hnone
        have hvalue := hvalues second hsecond
        simp [valuesOf_cons, hnone] at hvalue
    refine ⟨first, second, ?_, finish_of_exclusive h.free hentries⟩
    -- they are the two switches about the log, in one order or the other
    rcases of_decide_eq_true hfirst with rfl | rfl <;>
      rcases of_decide_eq_true hsecond with rfl | rfl
    · exact absurd rfl hdistinct
    · exact .exclusive (.inl ⟨rfl, rfl⟩) hgiven.1 hgiven.2
    · exact .exclusive (.inr ⟨rfl, rfl⟩) hgiven.2 hgiven.1
    · exact absurd rfl hdistinct

end Records

/-- What settling some settings comes to: each of them is settled, or one switch is given twice. -/
theorem records_or_repeated {settings : List Setting}
    (hadmits : ∀ setting ∈ settings, setting.1.Admits setting.2) :
    (∃ progress, settings.foldlM Progress.record .start = .ok progress
        ∧ Records settings progress ∧ Once settings)
      ∨ ∃ switch, switch ≠ .verbose ∧ 1 < (valuesOf settings switch).length
        ∧ settings.foldlM Progress.record .start = .error (.mistake (.repeated switch)) := by
  induction settings using List.reverseRecOn with
  | nil => exact .inl ⟨_, rfl, Records.start, fun _ _ => Nat.zero_le 1⟩
  | append_singleton settings setting ih =>
    obtain ⟨switch, value⟩ := setting
    have hvalue : switch.Admits value := hadmits (switch, value) (by simp)
    rcases ih fun setting hmem => hadmits setting (List.mem_append_left _ hmem) with
      ⟨progress, hfold, hrecords, honce⟩ | ⟨other, hother, hlength, hfold⟩
    · -- all settings before the last one are settled
      rw [List.foldlM_append, hfold, ok_bind, List.foldlM_cons]
      rcases hrecords.record hvalue with
        ⟨hswitch, hbefore, hrecord⟩ | ⟨hfresh, next, hrecord, hnext⟩
      · right
        refine ⟨switch, hswitch, ?_, ?_⟩
        · have hpos := List.length_pos_iff.mpr hbefore
          rw [valuesOf_concat, if_pos rfl, List.length_append, List.length_singleton]
          omega
        · rw [hrecord]
          rfl
      · left
        refine ⟨next, ?_, hnext, fun other hother => ?_⟩
        · rw [hrecord]
          rfl
        · rw [valuesOf_concat]
          by_cases hsame : switch = other
          · subst hsame
            rw [hfresh.resolve_left hother]
            simp
          · simpa [hsame] using honce other hother
    · right
      refine ⟨other, hother, ?_, ?_⟩
      · rw [valuesOf_append, List.length_append]
        omega
      · rw [List.foldlM_append, hfold]
        rfl

/-! ## §4 Whole command lines -/

/-- What is settled of the settings that make some choices. -/
theorem Records.choices_eq {settings : List Setting} {progress : Progress} {choices : Choices}
    (h : Records settings progress)
    (hvalues : ∀ switch, valuesOf settings switch = choices.values switch) :
    progress.choices = { choices with verbosity := min choices.verbosity 255 } := by
  have hlookup : ∀ switch, progress.given.lookup switch = (choices.values switch).head? :=
    fun switch => (h.lookup_given switch).trans (congrArg List.head? (hvalues switch))
  have hverbosity : progress.verbosity = min choices.verbosity 255 := by
    rw [h.counted, hvalues, Choices.values, List.length_replicate, Nat.min_comm]
  have hflag : ∀ given : Bool, (if given then [""] else []).head?.isSome = given := by
    intro given
    cases given <;> rfl
  have hlevel : (choices.logLevel?.toList.map Log.Level.name).head?.bind Log.Level.ofName? =
      choices.logLevel? := by
    cases choices.logLevel? with
    | none => rfl
    | some level => exact Log.Level.ofName?_name level
  simp only [Progress.choices, hlookup, hverbosity, Choices.values, hflag, hlevel,
    Option.head?_toList]

/-- A command line makes the choices that its settings are for, in whatever order and way these are
written, with a number of requests for detail up to 255.  Settings that cannot be given together are
refused, in whatever order they are. -/
theorem read_written {settings : List Setting} {arguments : List String}
    (h : Written settings arguments) :
    (∀ choices : Choices, settings.Perm choices.settings →
        choices.logLevel? = none ∨ choices.verbosity = 0 →
        read arguments = .ok { choices with verbosity := min choices.verbosity 255 })
      ∧ ∀ mistake, Conflict settings mistake →
        ∃ reported, Conflict settings reported
          ∧ read arguments = .error (.mistake reported) := by
  rw [read_of_written h]
  constructor
  · intro choices hperm hlog
    have hvalues := Choices.valuesOf_of_perm hperm
    -- all settings are recorded, and the reader finishes: the other endings need a conflict, which
    -- the choices do not have
    rcases records_or_repeated h.admits with
      ⟨progress, hfold, hrecords, -⟩ | ⟨switch, hswitch, hlength, -⟩
    · rw [hfold, ok_bind]
      rcases hrecords.finish with ⟨-, hfinish⟩ | ⟨first, second, hexclusive, -⟩
      · rw [hfinish, hrecords.choices_eq hvalues]
      · exfalso
        cases hexclusive with
        | exclusive pair counted named =>
          rw [hvalues] at counted named
          rcases hlog with hlog | hlog
          · exact named (by simp [Choices.values, hlog])
          · exact counted (by simp [Choices.values, hlog])
    · -- a switch given twice has two values, and choices have at most one
      have hmost := choices.length_values_le hswitch
      rw [hvalues] at hlength
      omega
  · intro mistake hconflict
    -- a repeated switch ends the reading at once, and levels are compared only when there is none
    rcases records_or_repeated h.admits with
      ⟨progress, hfold, hrecords, honce⟩ | ⟨switch, hswitch, hlength, hfold⟩
    · rw [hfold, ok_bind]
      rcases hrecords.finish with ⟨hlog, -⟩ | ⟨first, second, hexclusive, hfinish⟩
      · exfalso
        cases hconflict with
        | repeated counts twice => exact absurd (honce _ counts) (by omega)
        | exclusive pair counted named => exact hlog.elim counted named
      · exact ⟨_, hexclusive, hfinish⟩
    · refine ⟨_, .repeated hswitch hlength, ?_⟩
      rw [hfold]
      rfl

/-- Choices with an empty value, and with values that look like switches. -/
def strangeChoices : Choices where
  target? := none
  version? := some "--target=x"
  notes? := some ""
  requireSignature := false
  dryRun := true
  config? := some "a=b.json"
  directory? := some "site"
  verbosity := 4
  logLevel? := none

/-- The settings of these choices in another order. -/
def strangeSettings : List Setting :=
  [(.directory, "site"), (.notes, ""), (.dryRun, ""), (.version, "--target=x"), (.verbose, ""),
    (.verbose, ""), (.verbose, ""), (.config, "a=b.json"), (.verbose, "")]

theorem read_written_sample :
    Written strangeSettings ["-C", "site", "--notes=", "--dry-run", "--version=--target=x", "-vvv",
        "--config", "a=b.json", "--verbose"]
      ∧ strangeSettings.Perm strangeChoices.settings
      ∧ read ["-C", "site", "--notes=", "--dry-run", "--version=--target=x", "-vvv",
        "--config", "a=b.json", "--verbose"] = .ok strangeChoices
      ∧ Conflict [(.logLevel, "debug"), (.notes, ""), (.verbose, "")]
        (.exclusive .logLevel .verbose)
      ∧ ∃ mistake, read ["--log-level", "debug", "--notes=", "-v"] = .error (.mistake mistake) := by
  have hfirst : Written strangeSettings
      ["-C", "site", "--notes=", "--dry-run", "--version=--target=x", "-vvv",
        "--config", "a=b.json", "--verbose"] :=
    .cons (show Switch.directory.Admits "site" from (by decide : "site" ≠ ""))
      (.lettered rfl rfl ⟨'s', _, rfl, by decide⟩) <|
    .cons (show Switch.notes.Admits "" from trivial) (.joined rfl rfl) <|
    .cons (show Switch.dryRun.Admits "" from rfl) (.flag rfl rfl) <|
    .cons (show Switch.version.Admits "--target=x" from trivial) (.joined rfl rfl) <|
    .cluster 2 <|
    .cons (show Switch.config.Admits "a=b.json" from (by decide : "a=b.json" ≠ ""))
      (.spaced rfl rfl ⟨'a', _, rfl, by decide⟩) <|
    .cons (show Switch.verbose.Admits "" from rfl) (.flag rfl rfl) .nil
  have hsecond : Written [(.logLevel, "debug"), (.notes, ""), (.verbose, "")]
      ["--log-level", "debug", "--notes=", "-v"] :=
    .cons (show Switch.logLevel.Admits "debug" from ⟨.debug, rfl⟩)
      (.spaced rfl rfl ⟨'d', _, rfl, by decide⟩) <|
    .cons (show Switch.notes.Admits "" from trivial) (.joined rfl rfl) <|
    .cluster 0 .nil
  have hperm : strangeSettings.Perm strangeChoices.settings := by decide
  have hconflict : Conflict [(.logLevel, "debug"), (.notes, ""), (.verbose, "")]
      (.exclusive .logLevel .verbose) :=
    .exclusive (.inr ⟨rfl, rfl⟩) (by decide) (by decide)
  obtain ⟨mistake, -, hread⟩ := (read_written hsecond).2 _ hconflict
  exact ⟨hfirst, hperm, (read_written hfirst).1 strangeChoices hperm (.inl rfl), hconflict, mistake,
    hread⟩

end UpdateFeed.CommandLine
