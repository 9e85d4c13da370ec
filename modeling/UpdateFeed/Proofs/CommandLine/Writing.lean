import UpdateFeed.Proofs.CommandLine.LogSettings

/-!
# Written command lines

A command line is written from settings, one after the other: a switch with a value has it behind an
equals sign or in the next argument, a switch without one is an argument, and requests for detail
may share one.  Reading such a line settles the settings in the order in which they are written.

A value in an argument of its own is settled only when the next switch comes.  So what is read of a
line is said together with the settling behind it, and then all ways to write a setting are alike.

- `Written`: the arguments in which settings are written.
- `Spelled.exists_settles`: what the arguments of one setting do.
- `read_of_written`: reading a command line that is written from settings.
-/

namespace UpdateFeed.CommandLine

/-! ## §1 Settings and how they are written -/

/-- A switch with its value, which is empty if the switch takes none. -/
abbrev Setting := Switch × String

/-- Whether a switch can have a value.  Asking for help is no setting. -/
def Switch.Admits : Switch → String → Prop
  | .target, _ | .version, _ | .notes, _ => True
  | .config, path | .directory, path => path ≠ ""
  | .logLevel, name => ∃ level : Log.Level, level.name = name
  | .signature, value | .dryRun, value | .verbose, value => value = ""
  | .help, _ => False

/-- Whether a text can be an argument that is no switch: it is not empty and does not start with a
dash. -/
def IsWord (text : String) : Prop :=
  ∃ first rest, text.toList = first :: rest ∧ first ≠ '-'

/-- The arguments in which a switch is written with its value. -/
inductive Spelled (switch : Switch) (value : String) : List String → Prop
  /-- The value stands behind an equals sign. -/
  | joined {name : String} (takes : switch.takesValue) (hname : switch.longName? = some name) :
      Spelled switch value ["--" ++ name ++ "=" ++ value]
  /-- The value stands in the next argument. -/
  | spaced {name : String} (takes : switch.takesValue) (hname : switch.longName? = some name)
      (word : IsWord value) : Spelled switch value ["--" ++ name, value]
  /-- The same with the letter of the switch. -/
  | lettered {letter : Char} (takes : switch.takesValue) (hletter : switch.letter? = some letter)
      (word : IsWord value) : Spelled switch value ["-" ++ letter.toString, value]
  /-- The switch takes no value. -/
  | flag {name : String} (takes : switch.takesValue = false)
      (hname : switch.longName? = some name) : Spelled switch value ["--" ++ name]

/-- The arguments in which settings are written, in their order. -/
inductive Written : List Setting → List String → Prop
  | nil : Written [] []
  | cons {switch : Switch} {value : String} {settings : List Setting} {first rest : List String} :
      switch.Admits value → Spelled switch value first → Written settings rest →
      Written ((switch, value) :: settings) (first ++ rest)
  /-- Requests for detail in one argument, as many as it has letters. -/
  | cluster (more : Nat) {settings : List Setting} {rest : List String} :
      Written settings rest →
      Written (List.replicate (more + 1) (.verbose, "") ++ settings)
        (String.ofList ('-' :: List.replicate (more + 1) 'v') :: rest)

/-- The settings of a command line are ones that their switches can have. -/
theorem Written.admits {settings : List Setting} {arguments : List String}
    (h : Written settings arguments) : ∀ setting ∈ settings, setting.1.Admits setting.2 := by
  induction h with
  | nil => simp
  | cons hadmits _ _ ih =>
    rw [List.forall_mem_cons]
    exact ⟨hadmits, ih⟩
  | cluster more _ ih =>
    intro setting hmem
    rcases List.mem_append.mp hmem with hmem | hmem
    · rw [List.eq_of_mem_replicate hmem]
      rfl
    · exact ih setting hmem

namespace Switch

variable {switch : Switch} {value name : String} {letter : Char}

/-- A long name can be told from two dashes and from a value behind it. -/
theorem longName?_spec (h : switch.longName? = some name) :
    name.toList ≠ [] ∧ '=' ∉ name.toList := by
  cases switch <;> cases h <;> decide

/-- A letter leads back to its switch, and can be told from a dash. -/
theorem letter?_spec (h : switch.letter? = some letter) :
    ofLetter? letter = some switch ∧ letter ≠ '-' := by
  cases switch <;> cases h <;> decide

/-- A value that a switch can have is no mistake. -/
theorem valueMistake?_of_admits (h : switch.Admits value) :
    Progress.valueMistake? switch value = none := by
  cases switch with
  | config => exact if_neg h
  | directory => exact if_neg h
  | logLevel =>
    obtain ⟨level, rfl⟩ := h
    cases level <;> decide
  | _ => rfl

/-- A switch without a value has an empty one. -/
theorem eq_empty_of_admits (h : switch.Admits value) (htakes : switch.takesValue = false) :
    value = "" := by
  cases switch with
  | signature => exact h
  | dryRun => exact h
  | verbose => exact h
  | help => exact h.elim
  | _ => cases htakes

end Switch

/-! ## §2 Reading one setting -/

namespace Progress

variable {progress next : Progress} {switch : Switch} {value name : String} {letter : Char}
  {setting : Setting}

/-- Settles a setting: a request for detail is counted, any other one is stored. -/
def record (progress : Progress) (setting : Setting) : Except Refusal Progress :=
  if setting.1 = .verbose then .ok progress.countVerbose else progress.store setting.1 setting.2

theorem settle_of_free (h : progress.waiting? = none) : progress.settle = .ok progress :=
  settle_eq_ok_iff.mpr (.inl ⟨h, rfl⟩)

theorem plain_of_settle (h : progress.settle = .ok next) : next.plain = progress.plain := by
  rcases settle_eq_ok_iff.mp h with ⟨-, rfl⟩ | ⟨switch, value, -, hstore⟩
  · rfl
  · obtain ⟨-, -, rfl⟩ := store_eq_ok_iff.mp hstore
    rfl

/-- What is settled stays so, and where switches are looked for does not change. -/
theorem record_spec (h : progress.record setting = .ok next) :
    next.waiting? = progress.waiting? ∧ next.plain = progress.plain := by
  unfold record at h
  split at h
  · obtain rfl := Except.ok.inj h
    exact ⟨rfl, rfl⟩
  · obtain ⟨-, -, rfl⟩ := store_eq_ok_iff.mp h
    exact ⟨rfl, rfl⟩

/-- A switch without a value is settled at once. -/
theorem takeFlag_eq (progress : Progress) (hswitch : switch ≠ .help) (long : Bool) :
    progress.takeFlag switch long = (progress.settle >>= fun settled =>
      settled.record (switch, "")) := by
  cases switch with
  | help => exact absurd rfl hswitch
  | _ => rfl

/-- What stands behind two dashes is read as a long name. -/
theorem take_dashes {argument : String} {text : List Char} (hplain : progress.plain = false)
    (hargument : argument.toList = '-' :: '-' :: text) (hne : text ≠ []) :
    progress.take argument = progress.takeLong text := by
  obtain ⟨c, rest, rfl⟩ := List.exists_cons_of_ne_nil hne
  unfold take
  rw [if_neg (by simp [hplain]), hargument]
  rfl

/-- What stands behind one dash is read as letters. -/
theorem take_dash {argument : String} {letters : List Char} (hplain : progress.plain = false)
    (hargument : argument.toList = '-' :: letter :: letters) (hdash : letter ≠ '-') :
    progress.take argument = progress.takeLetters (letter :: letters) := by
  unfold take
  rw [if_neg (by simp [hplain]), hargument]
  split
  · rename_i heq
    exact absurd (List.cons.inj (List.cons.inj heq).2).1 hdash
  · rename_i heq
    exact absurd (List.cons.inj (List.cons.inj heq).2).1 hdash
  · rename_i heq
    simp at heq
  · rename_i heq
    rw [(List.cons.inj heq).2]
  · rename_i hother
    exact absurd rfl (hother (letter :: letters))

/-- A long name is read up to an equals sign. -/
theorem takeWhile_name (hname : switch.longName? = some name) (rest : List Char) :
    (name.toList ++ rest).takeWhile (· ≠ '=') = name.toList ++ rest.takeWhile (· ≠ '=') := by
  apply List.takeWhile_append_of_pos
  intro c hc
  rw [decide_eq_true_iff]
  rintro rfl
  exact (Switch.longName?_spec hname).2 hc

/-- A switch with its value behind an equals sign. -/
theorem take_joined (hplain : progress.plain = false) (htakes : switch.takesValue)
    (hname : switch.longName? = some name) (value : String) :
    progress.take ("--" ++ name ++ "=" ++ value) = progress.takeValued switch (some value) := by
  have hargument : ("--" ++ name ++ "=" ++ value).toList =
      '-' :: '-' :: (name.toList ++ '=' :: value.toList) := by
    simp
  rw [take_dashes hplain hargument (by simp)]
  unfold takeLong
  dsimp only
  rw [takeWhile_name hname, List.takeWhile_cons_of_neg (by simp), List.append_nil,
    String.ofList_toList, Switch.ofLongName?_longName? hname]
  have hvalue : (name.toList ++ '=' :: value.toList).drop (name.toList.length + 1) =
      value.toList := by
    rw [← List.drop_drop, List.drop_left, List.drop_one, List.tail_cons]
  rw [hvalue, String.ofList_toList]
  simp [htakes]

/-- A switch that is an argument with its long name. -/
theorem take_long (hplain : progress.plain = false) (hname : switch.longName? = some name) :
    progress.take ("--" ++ name) =
      if switch.takesValue then progress.takeValued switch none
      else progress.takeFlag switch true := by
  have hargument : ("--" ++ name).toList = '-' :: '-' :: name.toList := by
    simp
  have hread := takeWhile_name hname []
  rw [List.append_nil, List.takeWhile_nil, List.append_nil] at hread
  rw [take_dashes hplain hargument (Switch.longName?_spec hname).1]
  unfold takeLong
  dsimp only
  rw [hread, String.ofList_toList, Switch.ofLongName?_longName? hname]
  simp

/-- A switch that is an argument with its letter. -/
theorem take_letter (hplain : progress.plain = false) (htakes : switch.takesValue)
    (hletter : switch.letter? = some letter) :
    progress.take ("-" ++ letter.toString) = progress.takeValued switch none := by
  obtain ⟨hback, hdash⟩ := Switch.letter?_spec hletter
  have hargument : ("-" ++ letter.toString).toList = '-' :: letter :: [] := by
    simp
  rw [take_dash hplain hargument hdash]
  simp [takeLetters, hback, htakes]

/-- The value in an argument of its own goes to the switch that waits. -/
theorem take_word (hplain : progress.plain = false)
    (hwaiting : progress.waiting? = some (switch, none)) (hword : IsWord value) :
    progress.take value = .ok { progress with waiting? := some (switch, some value) } := by
  obtain ⟨first, rest, hvalue, hdash⟩ := hword
  have hplainly : progress.takePlain value =
      .ok { progress with waiting? := some (switch, some value) } := by
    simp [takePlain, hplain, hwaiting]
  unfold take
  rw [if_neg (by simp [hplain]), hvalue]
  -- the four special readings all begin with a dash, which a word does not
  split
  · rename_i heq
    exact absurd (List.cons.inj heq).1 hdash
  · rename_i heq
    exact absurd (List.cons.inj heq).1 hdash
  · rename_i heq
    exact absurd (List.cons.inj heq).1 hdash
  · rename_i heq
    exact absurd (List.cons.inj heq).1 hdash
  · exact hplainly

/-- Requests for detail in one argument are counted one by one. -/
theorem takeLetters_requests (progress : Progress) (more : Nat) :
    progress.takeLetters (List.replicate (more + 1) 'v') = (progress.settle >>= fun settled =>
      (List.replicate (more + 1) (Switch.verbose, "")).foldlM record settled) := by
  have hletter : Switch.ofLetter? 'v' = some .verbose := rfl
  have hfirst : ∀ progress : Progress, ∀ letters, progress.takeLetters ('v' :: letters) =
      (progress.settle >>= fun settled => settled.countVerbose.takeLetters letters) := by
    intro progress letters
    rw [takeLetters, hletter]
    dsimp only
    rw [if_neg (by decide), takeFlag_eq progress (by decide)]
    cases progress.settle with
    | ok settled => rfl
    | error refusal => rfl
  induction more generalizing progress with
  | zero =>
    rw [List.replicate_one, List.replicate_one, hfirst]
    cases progress.settle with
    | ok settled => rfl
    | error refusal => rfl
  | succ more ih =>
    rw [List.replicate_succ, hfirst]
    cases hsettle : progress.settle with
    | error refusal => rfl
    | ok settled =>
      -- nothing waits behind the first request, so nothing is settled before the others
      have hnone := waiting_of_settle hsettle
      have hfree : settled.countVerbose.waiting? = none := hnone
      rw [ok_bind, ok_bind, ih, settle_of_free hfree, ok_bind]
      rfl

/-- Whether a part of the reading that comes when nothing waits settles a setting, at once or with
the settling behind it. -/
def Settles (setting : Setting) (part : Progress → Except Refusal Progress) : Prop :=
  ∀ settled : Progress, settled.waiting? = none → settled.plain = false →
    (part settled >>= settle) = settled.record setting
      ∧ ∀ next, part settled = .ok next → next.plain = false

theorem settles_record (setting : Setting) : Settles setting fun settled =>
    settled.record setting := by
  intro settled hfree hplain
  dsimp only
  cases hrecord : settled.record setting with
  | error refusal => exact ⟨rfl, fun next hnext => by cases hnext⟩
  | ok next =>
    obtain ⟨hwaiting, hkept⟩ := record_spec hrecord
    refine ⟨settle_of_free (hwaiting.trans hfree), fun other hother => ?_⟩
    obtain rfl := Except.ok.inj hother
    exact hkept.trans hplain

/-- A switch that waits with its value is settled behind it. -/
theorem settles_waiting (hswitch : switch ≠ .verbose) : Settles (switch, value) fun settled =>
    .ok { settled with waiting? := some (switch, some value) } := by
  intro settled hfree hplain
  have hsame : ({ settled with waiting? := none } : Progress) = settled := by
    rw [← hfree]
  refine ⟨?_, fun next hnext => ?_⟩
  · show ({ settled with waiting? := none } : Progress).store switch value = _
    rw [hsame, record, if_neg hswitch]
  · obtain rfl := Except.ok.inj hnext
    exact hplain

end Progress

open Progress

/-- The arguments of a setting settle the switch that waits, and then the setting. -/
theorem Spelled.exists_settles {switch : Switch} {value : String} {first : List String}
    (h : Spelled switch value first) (hadmits : switch.Admits value) :
    ∃ part, Settles (switch, value) part ∧ ∀ progress : Progress, progress.plain = false →
      first.foldlM take progress = (progress.settle >>= part) := by
  have hverbose : switch.takesValue → switch ≠ .verbose := by
    rintro htakes rfl
    cases htakes
  -- a value in the next argument goes to the switch, which then waits with it
  have hspaced : switch.takesValue → IsWord value → ∀ argument : String,
      (∀ progress : Progress, progress.plain = false →
        progress.take argument = progress.takeValued switch none) →
      ∀ progress : Progress, progress.plain = false →
        [argument, value].foldlM take progress = (progress.settle >>= fun settled =>
          .ok { settled with waiting? := some (switch, some value) }) := by
    intro htakes hword argument hargument progress hplain
    rw [List.foldlM_cons, hargument progress hplain, takeValued]
    cases hsettle : progress.settle with
    | error refusal => rfl
    | ok settled =>
      have hopen : settled.plain = false := (plain_of_settle hsettle).trans hplain
      have hvalue : ({ settled with waiting? := some (switch, none) } : Progress).take value =
          .ok { settled with waiting? := some (switch, some value) } := take_word hopen rfl hword
      rw [ok_bind, ok_bind, ok_bind, List.foldlM_cons, hvalue]
      rfl
  cases h with
  | joined takes hname =>
    refine ⟨_, settles_record (switch, value), fun progress hplain => ?_⟩
    rw [List.foldlM_cons, take_joined hplain takes hname, takeValued]
    simp [record, hverbose takes]
  | spaced takes hname word =>
    refine ⟨_, settles_waiting (hverbose takes), hspaced takes word _ fun progress hplain => ?_⟩
    rw [take_long hplain hname, if_pos takes]
  | lettered takes hletter word =>
    exact ⟨_, settles_waiting (hverbose takes), hspaced takes word _ fun progress hplain =>
      take_letter hplain takes hletter⟩
  | flag takes hname =>
    obtain rfl := Switch.eq_empty_of_admits hadmits takes
    have hhelp : switch ≠ .help := by
      rintro rfl
      exact hadmits
    refine ⟨_, settles_record (switch, ""), fun progress hplain => ?_⟩
    rw [List.foldlM_cons, take_long hplain hname, if_neg (by simp [takes]),
      takeFlag_eq progress hhelp]
    simp

/-! ## §3 Whole command lines -/

theorem Progress.finish_eq (progress : Progress) :
    progress.finish = (progress.settle >>= finish) := by
  cases hsettle : progress.settle with
  | error refusal =>
    unfold finish
    rw [hsettle]
    rfl
  | ok settled =>
    rw [ok_bind]
    unfold finish
    rw [hsettle, settle_of_settle hsettle]

/-- Reading the arguments in which settings are written settles the switch that waits, and then the
settings in their order. -/
theorem Written.foldlM_finish {settings : List Setting} {arguments : List String}
    (h : Written settings arguments) (progress : Progress) (hplain : progress.plain = false) :
    (arguments.foldlM take progress >>= finish) = (progress.settle >>= fun settled =>
      settings.foldlM record settled >>= finish) := by
  induction h generalizing progress with
  | nil => exact progress.finish_eq
  | @cons switch value settings first rest hadmits hspelled _ ih =>
    obtain ⟨part, hsettles, hpart⟩ := hspelled.exists_settles hadmits
    rw [List.foldlM_append, hpart progress hplain]
    cases hsettle : progress.settle with
    | error refusal => rfl
    | ok settled =>
      obtain ⟨hrecord, hopen⟩ := hsettles settled (waiting_of_settle hsettle)
        ((plain_of_settle hsettle).trans hplain)
      rw [ok_bind, ok_bind, List.foldlM_cons, ← hrecord]
      cases hnext : part settled with
      | error refusal => rfl
      | ok next =>
        rw [ok_bind, ih next (hopen next hnext), ok_bind]
        simp only [bind_assoc]
  | @cluster more settings rest _ ih =>
    have hargument : (String.ofList ('-' :: List.replicate (more + 1) 'v')).toList =
        '-' :: 'v' :: List.replicate more 'v' := by
      rw [String.toList_ofList, List.replicate_succ]
    rw [List.foldlM_cons, take_dash hplain hargument (by decide), ← List.replicate_succ,
      takeLetters_requests]
    cases hsettle : progress.settle with
    | error refusal => rfl
    | ok settled =>
      have hopen := (plain_of_settle hsettle).trans hplain
      rw [ok_bind, ok_bind, List.foldlM_append]
      cases hnext : (List.replicate (more + 1) (Switch.verbose, "")).foldlM record settled with
      | error refusal => rfl
      | ok next =>
        -- each request leaves nothing that waits
        obtain ⟨hfree, hplain⟩ := foldlM_invariant
          (fun first setting last (h : first.waiting? = none ∧ first.plain = false) hlast =>
            ⟨(record_spec hlast).1.trans h.1, (record_spec hlast).2.trans h.2⟩)
          ⟨waiting_of_settle hsettle, hopen⟩ hnext
        rw [ok_bind, ok_bind, ih next hplain, settle_of_free hfree, ok_bind]

/-- A command line that is written from settings is read by settling them in their order. -/
theorem read_of_written {settings : List Setting} {arguments : List String}
    (h : Written settings arguments) :
    read arguments = (settings.foldlM record start >>= finish) :=
  h.foldlM_finish start rfl

end UpdateFeed.CommandLine
