import UpdateFeed.CommandLine.Reader
import UpdateFeed.Proofs.Results

/-!
# Arguments as moves

Reading an argument is a row of moves, and which moves these are depends on the argument alone, and
on whether it stands behind `--`.  So whatever each move keeps, the reading of a whole command line
keeps.

- `exists_moves`: the moves of an argument.
- `accounted_of_foldlM`: what is read of a command line accounts for its count and its log level.
-/

namespace UpdateFeed.CommandLine

/-! ## §1 Moves -/

/-- A part of the reading of an argument. -/
inductive Move where
  /-- A switch without a value, written with its long name or with its letter. -/
  | flag (switch : Switch) (long : Bool)
  /-- A switch that takes a value, and the value that stands in its argument. -/
  | valued (switch : Switch) (takes : switch.takesValue) (value? : Option String)
  /-- An argument that is no switch. -/
  | word (argument : String)
  /-- The two dashes behind which no switch is looked for. -/
  | close
  /-- The end of a reading that gives no choices. -/
  | refuse (refusal : Refusal)

namespace Progress

variable {progress next : Progress} {switch : Switch} {value : String}

/-- Makes a move. -/
def make (progress : Progress) : Move → Except Refusal Progress
  | .flag switch long => progress.takeFlag switch long
  | .valued switch _ value? => progress.takeValued switch value?
  | .word argument => progress.takePlain argument
  | .close => .ok { progress with plain := true }
  | .refuse refusal => .error refusal

/-- The moves of the letters behind one dash. -/
theorem exists_moves_takeLetters (letters : List Char) :
    ∃ moves : List Move, ∀ progress : Progress,
      progress.takeLetters letters = moves.foldlM make progress := by
  induction letters with
  | nil => exact ⟨[], fun progress => rfl⟩
  | cons letter rest ih =>
    cases hswitch : Switch.ofLetter? letter with
    | none =>
      refine ⟨[.refuse (.mistake (.unknown ("-" ++ letter.toString)))], fun progress => ?_⟩
      simp [takeLetters, hswitch, make]
    | some switch =>
      by_cases htakes : switch.takesValue
      · -- the rest of the argument is the value
        have hone : ∃ value?, ∀ progress : Progress,
            progress.takeLetters (letter :: rest) = progress.takeValued switch value? := by
          match rest with
          | [] => exact ⟨none, fun progress => by simp [takeLetters, hswitch, htakes]⟩
          | c :: value =>
            by_cases hsign : c = '='
            · refine ⟨some (String.ofList value), fun progress => ?_⟩
              simp [takeLetters, hswitch, htakes, hsign]
            · refine ⟨some (String.ofList (c :: value)), fun progress => ?_⟩
              simp [takeLetters, hswitch, htakes, hsign]
        obtain ⟨value?, hvalue⟩ := hone
        refine ⟨[.valued switch htakes value?], fun progress => ?_⟩
        rw [hvalue, List.foldlM_cons]
        simp [make]
      · -- the other letters are read behind this one
        obtain ⟨moves, hmoves⟩ := ih
        refine ⟨.flag switch false :: moves, fun progress => ?_⟩
        rw [List.foldlM_cons]
        simp only [takeLetters, hswitch, htakes, make]
        cases progress.takeFlag switch false with
        | ok next => simpa [ok_bind] using hmoves next
        | error refusal => rfl

/-- The move of an argument behind two dashes. -/
theorem exists_move_takeLong (text : List Char) :
    ∃ move : Move, ∀ progress : Progress, progress.takeLong text = progress.make move := by
  unfold takeLong
  generalize text.takeWhile (· ≠ '=') = name
  cases hswitch : Switch.ofLongName? (String.ofList name) with
  | none =>
    refine ⟨.refuse (.mistake (.unknown ("--" ++ String.ofList name))), fun progress => ?_⟩
    simp [hswitch, make]
  | some switch =>
    by_cases htakes : switch.takesValue
    · refine ⟨.valued switch htakes (if name.length < text.length then
        some (String.ofList (text.drop (name.length + 1))) else none), fun progress => ?_⟩
      simp [hswitch, htakes, make]
    · by_cases hlength : name.length < text.length
      · -- a value behind a switch that takes none
        refine ⟨.refuse (.mistake (.surplusValue switch
          (String.ofList (text.drop (name.length + 1))))), fun progress => ?_⟩
        simp [hswitch, htakes, hlength, make]
      · refine ⟨.flag switch true, fun progress => ?_⟩
        simp [hswitch, htakes, hlength, make]

/-- A step that is one move. -/
private theorem exists_moves_of_move {step : Progress → Except Refusal Progress} (move : Move)
    (h : ∀ progress : Progress, step progress = progress.make move) :
    ∃ moves : List Move, ∀ progress, step progress = moves.foldlM make progress := by
  refine ⟨[move], fun progress => ?_⟩
  rw [h]
  simp

/-- Where arguments are looked at for switches, the steps for other ones do not count. -/
private theorem exists_moves_of_open {word step : Progress → Except Refusal Progress}
    (h : ∃ moves : List Move, ∀ progress, step progress = moves.foldlM make progress) :
    ∃ moves : List Move, ∀ progress : Progress, progress.plain = false →
      (if progress.plain then word progress else step progress) = moves.foldlM make progress := by
  obtain ⟨moves, hmoves⟩ := h
  refine ⟨moves, fun progress hplain => ?_⟩
  rw [if_neg (by simp [hplain])]
  exact hmoves progress

/-- The moves of an argument. -/
theorem exists_moves (plain : Bool) (argument : String) :
    ∃ moves : List Move, ∀ progress : Progress, progress.plain = plain →
      progress.take argument = moves.foldlM make progress := by
  cases plain with
  | true =>
    refine ⟨[.word argument], fun progress hplain => ?_⟩
    simp [take, hplain, make]
  | false =>
    -- the argument is looked at for switches, by its first characters
    unfold take
    apply exists_moves_of_open
    split
    · exact exists_moves_of_move .close fun _ => rfl
    · rename_i text _ _
      obtain ⟨move, hmove⟩ := exists_move_takeLong text
      exact exists_moves_of_move move hmove
    · exact exists_moves_of_move (.word argument) fun _ => rfl
    · exact exists_moves_takeLetters _
    · exact exists_moves_of_move (.word argument) fun _ => rfl

/-! ## §2 Settled switches -/

/-- A switch is settled once, with a value that it may have. -/
theorem store_eq_ok_iff : progress.store switch value = .ok next ↔
    progress.given.lookup switch = none ∧ valueMistake? switch value = none
      ∧ next = { progress with given := progress.given ++ [(switch, value)] } := by
  unfold store
  cases progress.given.lookup switch with
  | some found => simp
  | none =>
    cases valueMistake? switch value with
    | some mistake => simp
    | none => simp [eq_comm]

/-- Settling does nothing when no switch waits, and stores the one that waits otherwise. -/
theorem settle_eq_ok_iff : progress.settle = .ok next ↔
    progress.waiting? = none ∧ next = progress
      ∨ ∃ switch value, progress.waiting? = some (switch, some value)
        ∧ { progress with waiting? := none }.store switch value = .ok next := by
  unfold settle
  rcases progress.waiting? with _ | ⟨switch, _ | value⟩
  · simp [eq_comm]
  · simp
  · constructor
    · intro h
      exact .inr ⟨switch, value, rfl, h⟩
    · rintro (⟨hnone, -⟩ | ⟨other, text, hsome, h⟩)
      · cases hnone
      · cases hsome
        exact h

/-- Behind settling no switch waits. -/
theorem waiting_of_settle (h : progress.settle = .ok next) : next.waiting? = none := by
  rcases settle_eq_ok_iff.mp h with ⟨hwaiting, rfl⟩ | ⟨switch, value, -, hstore⟩
  · exact hwaiting
  · obtain ⟨-, -, rfl⟩ := store_eq_ok_iff.mp hstore
    rfl

/-- What is settled stays as it is. -/
theorem settle_of_settle (h : progress.settle = .ok next) : next.settle = .ok next :=
  settle_eq_ok_iff.mpr (.inl ⟨waiting_of_settle h, rfl⟩)

/-! ## §3 Counts and log levels -/

/-- Whether the count stands for the requests for detail that were given, and each log level that
was given is one. -/
structure Accounted (progress : Progress) : Prop where
  waiting : ∀ switch value?, progress.waiting? = some (switch, value?) → switch.takesValue
  counted : ∀ value, (Switch.verbose, value) ∈ progress.given → 0 < progress.verbosity
  named : ∀ value, (Switch.logLevel, value) ∈ progress.given →
    (Log.Level.ofName? value).isSome

theorem accounted_start : start.Accounted where
  waiting _ _ h := by cases h
  counted _ h := by cases h
  named _ h := by cases h

theorem Accounted.store (h : progress.Accounted) (hswitch : switch ≠ .verbose)
    (hstore : progress.store switch value = .ok next) : next.Accounted := by
  obtain ⟨-, hvalue, rfl⟩ := store_eq_ok_iff.mp hstore
  refine ⟨h.waiting, fun text hmem => ?_, fun text hmem => ?_⟩
  · apply h.counted text
    simpa [hswitch.symm] using hmem
  · rcases List.mem_append.mp hmem with hmem | hmem
    · exact h.named text hmem
    · -- the value of a log level is looked at before it is stored
      obtain ⟨rfl, rfl⟩ : Switch.logLevel = switch ∧ text = value := by simpa using hmem
      unfold valueMistake? at hvalue
      dsimp only at hvalue
      split at hvalue
      · cases hvalue
      · split at hvalue
        · cases hvalue
        · rename_i hlevel
          simpa [Option.isSome_iff_ne_none] using hlevel

theorem Accounted.settle (h : progress.Accounted) (hsettle : progress.settle = .ok next) :
    next.Accounted := by
  rcases settle_eq_ok_iff.mp hsettle with ⟨-, rfl⟩ | ⟨switch, value, hwaiting, hstore⟩
  · exact h
  · -- requests for detail take no value, so none of them waits
    have hswitch : switch ≠ .verbose := by
      rintro rfl
      exact absurd (h.waiting _ _ hwaiting) (by decide)
    have hfree : Accounted { progress with waiting? := none } :=
      ⟨fun _ _ hnone => (by cases hnone), h.counted, h.named⟩
    exact hfree.store hswitch hstore

theorem Accounted.countVerbose (h : progress.Accounted) : progress.countVerbose.Accounted where
  waiting := h.waiting
  counted _ _ := by
    show 0 < min 255 (progress.verbosity + 1)
    omega
  named value hmem := by
    apply h.named value
    simpa [Progress.countVerbose] using hmem

theorem Accounted.make {move : Move} (h : progress.Accounted)
    (hmake : progress.make move = .ok next) : next.Accounted := by
  cases move with
  | flag switch long =>
    obtain ⟨settled, hsettle, hflag⟩ := exists_of_bind_eq_ok hmake
    have hsettled := h.settle hsettle
    cases switch with
    | help => cases hflag
    | verbose =>
      obtain rfl := Except.ok.inj hflag
      exact hsettled.countVerbose
    | _ => exact hsettled.store (by decide) hflag
  | valued switch takes value? =>
    obtain ⟨settled, hsettle, hvalued⟩ := exists_of_bind_eq_ok hmake
    have hsettled := h.settle hsettle
    cases value? with
    | none =>
      obtain rfl := Except.ok.inj hvalued
      refine ⟨fun other value? hwaiting => ?_, hsettled.counted, hsettled.named⟩
      obtain ⟨rfl, -⟩ : switch = other ∧ none = value? := by simpa using hwaiting
      exact takes
    | some value =>
      refine hsettled.store ?_ hvalued
      rintro rfl
      exact absurd takes (by decide)
  | word argument =>
    simp only [Progress.make, takePlain] at hmake
    split at hmake
    · -- only a switch that still waits for its value accepts a word
      rename_i switch _ hwaiting
      obtain rfl := Except.ok.inj hmake
      refine ⟨fun other value? hother => ?_, h.counted, h.named⟩
      obtain ⟨rfl, -⟩ : switch = other ∧ some argument = value? := by simpa using hother
      exact h.waiting _ _ hwaiting
    · cases hmake
  | close =>
    obtain rfl := Except.ok.inj hmake
    exact ⟨h.waiting, h.counted, h.named⟩
  | refuse refusal => cases hmake

/-- What is read of a command line accounts for its count and its log level. -/
theorem accounted_of_foldlM {arguments : List String}
    (h : arguments.foldlM take start = .ok progress) : progress.Accounted := by
  have hstep : ∀ (first : Progress) (argument : String) (last : Progress), first.Accounted →
      first.take argument = .ok last → last.Accounted := by
    intro first argument last hfirst hlast
    obtain ⟨moves, hmoves⟩ := exists_moves first.plain argument
    rw [hmoves first rfl] at hlast
    exact foldlM_invariant (fun _ _ _ => Accounted.make) hfirst hlast
  exact foldlM_invariant hstep accounted_start h

end Progress

end UpdateFeed.CommandLine
