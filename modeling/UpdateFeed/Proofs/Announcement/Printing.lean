import UpdateFeed.Proofs.Announcement.DryRun
import UpdateFeed.Proofs.Announcement.Failure

/-!
# What an announcement prints

Each target that gets as far as printing prints its manifest and a line break behind it, and without
a dry run the text that it prints is the one that it has saved.  An output that takes a limited
number of bytes holds the start of what an output without a limit holds: the announcement goes the
same way up to the target whose manifest is cut off, and stops there.

- `Prints`: the step of a target that gets as far as printing.
- `exists_printouts`: the targets that print, in order, and why the next one does not.
- `announce_limited`: an announcement to a limited output beside the one to an unlimited output.
-/

namespace UpdateFeed

/-! ## §1 Lines -/

/-- The bytes of a text and of a line break behind it. -/
def lineBytes (text : String) : List UInt8 := utf8Bytes text ++ utf8Bytes "\n"

namespace Output

/-- Whether an output has room for bytes behind what it holds. -/
def HasRoom (output : Output) (bytes : List UInt8) : Prop :=
  ∀ limit, output.limit? = some limit → output.written.length + bytes.length ≤ limit

/-- An output that holds further bytes. -/
def holding (output : Output) (bytes : List UInt8) : Output :=
  { output with written := output.written ++ bytes }

variable {output : Output} {text : String} {bytes more : List UInt8}

theorem accepts_iff_hasRoom : output.accepts text = true ↔ output.HasRoom (utf8Bytes text) := by
  unfold accepts HasRoom
  cases output.limit? with
  | none => simp
  | some limit => simp

/-- An output without a limit has room for all bytes. -/
theorem hasRoom_of_unlimited (h : output.limit? = none) : output.HasRoom bytes := by
  intro limit hlimit
  cases h.symm.trans hlimit

/-- An output that holds nothing has room up to its limit. -/
theorem hasRoom_of_length_le {limit : Nat} (h : bytes.length ≤ limit) :
    (⟨some limit, []⟩ : Output).HasRoom bytes := by
  intro other hother
  obtain rfl := Option.some.inj hother
  simpa using h

theorem hasRoom_append :
    output.HasRoom (bytes ++ more) ↔
      output.HasRoom bytes ∧ (output.holding bytes).HasRoom more := by
  simp only [HasRoom, holding, List.length_append]
  constructor
  · intro h
    exact ⟨fun limit hlimit => by have := h limit hlimit; omega,
      fun limit hlimit => by have := h limit hlimit; omega⟩
  · rintro ⟨-, h⟩ limit hlimit
    have := h limit hlimit
    omega

theorem holding_holding : (output.holding bytes).holding more = output.holding (bytes ++ more) := by
  simp [holding]

/-- A text that there is room for is held whole. -/
theorem write_of_hasRoom (h : output.HasRoom (utf8Bytes text)) :
    output.write text = output.holding (utf8Bytes text) :=
  write_of_accepts (accepts_iff_hasRoom.mpr h)

/-- An output takes a line when it has room for all of it. -/
theorem takesLine_iff_hasRoom : output.takesLine text = true ↔ output.HasRoom (lineBytes text) := by
  unfold takesLine lineBytes
  rw [Bool.and_eq_true, hasRoom_append, accepts_iff_hasRoom, accepts_iff_hasRoom]
  refine and_congr_right fun hroom => ?_
  rw [write_of_hasRoom hroom]

/-- A line that there is room for is held whole. -/
theorem writeLine_of_hasRoom (h : output.HasRoom (lineBytes text)) :
    output.writeLine text = output.holding (lineBytes text) := by
  obtain ⟨hfirst, hsecond⟩ := hasRoom_append.mp h
  rw [writeLine, if_pos (accepts_iff_hasRoom.mpr hfirst), write_of_hasRoom hfirst,
    write_of_hasRoom hsecond, holding_holding]
  rfl

/-- Of a text that an output does not take whole, it holds as much as it has room for. -/
theorem written_write_of_limit {limit : Nat} (hlimit : output.limit? = some limit)
    (hheld : output.written.length ≤ limit) (h : ¬ output.HasRoom (utf8Bytes text)) :
    (output.write text).written = (output.written ++ utf8Bytes text).take limit := by
  rw [write_of_not_accepts (mt accepts_iff_hasRoom.mp h), hlimit, List.take_append,
    List.take_of_length_le hheld]
  rfl

/-- Of a line that an output does not take whole, it holds as much as it has room for. -/
theorem written_writeLine_of_limit {limit : Nat} (hlimit : output.limit? = some limit)
    (hheld : output.written.length ≤ limit) (h : ¬ output.HasRoom (lineBytes text)) :
    (output.writeLine text).written = (output.written ++ lineBytes text).take limit := by
  unfold writeLine lineBytes
  by_cases hfirst : output.HasRoom (utf8Bytes text)
  · -- the text is taken, so it is the line break that is not
    have hsecond : ¬ (output.holding (utf8Bytes text)).HasRoom (utf8Bytes "\n") :=
      fun hsecond => h (hasRoom_append.mpr ⟨hfirst, hsecond⟩)
    have hlength : (output.holding (utf8Bytes text)).written.length ≤ limit := by
      have := hfirst limit hlimit
      simpa [holding] using this
    rw [if_pos (accepts_iff_hasRoom.mpr hfirst), write_of_hasRoom hfirst,
      written_write_of_limit (by exact hlimit) hlength hsecond, ← List.append_assoc]
    rfl
  · rw [if_neg (mt accepts_iff_hasRoom.mp hfirst), written_write_of_limit hlimit hheld hfirst,
      ← List.append_assoc]
    -- what is held is full, so nothing of the line break is in it either
    have hfull : limit ≤ (output.written ++ utf8Bytes text).length := by
      rw [List.length_append]
      by_contra hless
      refine hfirst fun other hother => ?_
      obtain rfl := Option.some.inj (hlimit.symm.trans hother)
      omega
    rw [List.take_append_of_le_length hfull]

end Output

namespace Announcement

open Run

/-! ## §2 Printouts -/

/-- What a target prints: its manifest as it is ready to be saved, with the path and the text of the
signature that was put into it. -/
structure Printout where
  target : Target
  manifest : Manifest
  signature? : Option (String × String)

/-- The entry of a report for what a target prints. -/
def Printout.entry (config : Config) (printout : Printout) : Entry :=
  ⟨printout.target, (config.settings printout.target).manifest, printout.signature?.map Prod.fst⟩

/-- The text of what a target prints. -/
def Printout.text (printout : Printout) : String := printout.manifest.render

/-- The bytes of printouts, each of them a line. -/
def printed (printouts : List Printout) : List UInt8 :=
  printouts.flatMap fun printout => lineBytes printout.text

theorem printed_append (first second : List Printout) :
    printed (first ++ second) = printed first ++ printed second := by
  simp [printed]

theorem printed_cons (printout : Printout) (printouts : List Printout) :
    printed (printout :: printouts) = lineBytes printout.text ++ printed printouts := by
  simp [printed]

/-- A number of bytes that cuts printouts off does so in one of them. -/
theorem exists_cut {printouts : List Printout} {limit : Nat}
    (h : limit < (printed printouts).length) :
    ∃ done last later, printouts = done ++ last :: later
      ∧ (printed done).length ≤ limit ∧ limit < (printed (done ++ [last])).length := by
  induction printouts generalizing limit with
  | nil => simp [printed] at h
  | cons printout printouts ih =>
    -- the cut is in the first line, or as far behind it as what is left of the limit
    by_cases hfirst : limit < (lineBytes printout.text).length
    · exact ⟨[], printout, printouts, rfl, by simp [printed], by simpa [printed] using hfirst⟩
    · rw [printed_cons, List.length_append] at h
      have hrest : limit - (lineBytes printout.text).length < (printed printouts).length := by
        omega
      obtain ⟨done, last, later, rfl, hdone, hlast⟩ := ih hrest
      refine ⟨printout :: done, last, later, rfl, ?_, ?_⟩
      · rw [printed_cons, List.length_append]
        omega
      · rw [List.cons_append, printed_cons, List.length_append]
        omega

section

variable {root : String} {config : Config} {request : Request} {now : Instant}

/-- The step of a target that gets as far as printing: its manifest is prepared from the files
before the step, and saved.  Without a dry run that replaces the file of the manifest by the text
that is printed, and a dry run leaves the files alone. -/
structure Prints (root : String) (config : Config) (request : Request) (now : Instant)
    (printout : Printout) (before after : FileSystem) : Prop where
  prepared : prepare root config request now printout.target before =
    .ok (printout.manifest, printout.signature?)
  saved : saved request printout.manifest before = .ok after
  replaced : request.dryRun = false →
    FileSystem.Replaces (manifestPath root config printout.target) printout.text before after
  untouched : request.dryRun = true → after = before

/-- A manifest that is prepared belongs to the path of its target. -/
theorem path_of_prepare {target : Target} {files : FileSystem} {manifest : Manifest}
    {signature? : Option (String × String)}
    (h : prepare root config request now target files = .ok (manifest, signature?)) :
    manifest.document.path = manifestPath root config target := by
  obtain ⟨document, _, _, hloaded, _, _, rfl, _⟩ := exists_of_prepare h
  exact (Document.path_of_ofFile hloaded : document.path = _)

/-- A manifest that is prepared and saved is printed. -/
theorem prints_of_saved {printout : Printout} {before after : FileSystem}
    (hprepared : prepare root config request now printout.target before =
      .ok (printout.manifest, printout.signature?))
    (hsaved : saved request printout.manifest before = .ok after) :
    Prints root config request now printout before after where
  prepared := hprepared
  saved := hsaved
  replaced hreal := by
    simp only [saved, hreal, Bool.false_eq_true, if_false] at hsaved
    rw [← path_of_prepare hprepared]
    exact Document.replaces_of_save (mapError_eq_ok.mp (mapError_eq_ok.mp hsaved))
  untouched hdry := by
    simp only [saved, hdry, if_true] at hsaved
    exact (Except.ok.inj hsaved).symm

/-- What the targets behind those that print have to do with the files: there are none, or the next
one fails before it prints, with nothing done. -/
inductive Unprinted (root : String) (config : Config) (request : Request) (now : Instant)
    (files : FileSystem) : List Target → Prop
  | nothing : Unprinted root config request now files []
  | failing {target : Target} {later : List Target} {fault : Fault}
      (cause : fault.beforePrinting = true)
      (failed : ∀ output, targetEffect root config request now target files output =
        (.error fault, files, output)) :
      Unprinted root config request now files (target :: later)

/-- A target prints or fails before that. -/
theorem prints_or_unprinted (root : String) (config : Config) (request : Request) (now : Instant)
    (target : Target) (later : List Target) (files : FileSystem) :
    (∃ printout after, printout.target = target
        ∧ Prints root config request now printout files after)
      ∨ Unprinted root config request now files (target :: later) := by
  -- preparing and saving are what comes before printing
  cases hprepare : prepare root config request now target files with
  | error fault =>
    refine .inr (.failing (beforePrinting_of_prepare hprepare) fun output => ?_)
    unfold targetEffect
    rw [hprepare]
  | ok prepared =>
    obtain ⟨manifest, signature?⟩ := prepared
    cases hsaved : saved request manifest files with
    | ok after =>
      exact .inl ⟨⟨target, manifest, signature?⟩, after, rfl, prints_of_saved hprepare hsaved⟩
    | error fault =>
      -- a save that fails is one of a manifest
      have hcause : fault.beforePrinting = true := by
        unfold saved at hsaved
        split at hsaved
        · cases hsaved
        · exact beforePrinting_of_manifest hsaved
      refine .inr (.failing hcause fun output => ?_)
      unfold targetEffect
      rw [hprepare]
      dsimp only
      rw [hsaved]

/-- The targets that get as far as printing come first. -/
theorem exists_printouts (root : String) (config : Config) (request : Request) (now : Instant)
    (targets : List Target) (files : FileSystem) :
    ∃ printouts left updated, targets = printouts.map (·.target) ++ left
      ∧ Steps (Prints root config request now) printouts files updated
      ∧ Unprinted root config request now updated left := by
  induction targets generalizing files with
  | nil => exact ⟨[], [], files, rfl, .nil files, .nothing⟩
  | cons target targets ih =>
    rcases prints_or_unprinted root config request now target targets files with
      ⟨printout, after, rfl, hprints⟩ | hunprinted
    · -- the others start from the files that the first step leaves
      obtain ⟨printouts, left, updated, rfl, hsteps, hleft⟩ := ih after
      exact ⟨printout :: printouts, left, updated, rfl, .cons hprints hsteps, hleft⟩
    · exact ⟨[], target :: targets, files, rfl, .nil files, hunprinted⟩

/-! ## §3 Printing targets -/

/-- The step of a target that prints. -/
theorem exec_of_prints {printout : Printout} {session : Session} {after : FileSystem}
    (h : Prints root config request now printout session.files after) :
    ∃ last, exec (announceTarget root config request now printout.target) session =
        (if session.output.takesLine printout.text then .ok (printout.entry config)
          else .error .outputClosed, last)
      ∧ last.files = after ∧ last.output = session.output.writeLine printout.text := by
  obtain ⟨hresult, hfiles, houtput⟩ :=
    exec_announceTarget_eq root config request now printout.target session
  -- prepared and saved, the effect is what printing makes of the output
  unfold targetEffect at hresult hfiles houtput
  rw [h.prepared] at hresult hfiles houtput
  dsimp only at hresult hfiles houtput
  rw [h.saved] at hresult hfiles houtput
  exact ⟨_, Prod.ext hresult rfl, hfiles, houtput⟩

/-- Targets that print to an output with room for their lines. -/
theorem exec_targets_of_prints {printouts : List Printout} {session : Session}
    {files after : FileSystem} (h : Steps (Prints root config request now) printouts files after)
    (hfiles : session.files = files) (hroom : session.output.HasRoom (printed printouts)) :
    ∃ last, exec ((printouts.map (·.target)).mapM
        (announceTarget root config request now)) session =
          (.ok (printouts.map (·.entry config)), last)
      ∧ last.files = after ∧ last.output = session.output.holding (printed printouts) := by
  induction h generalizing session with
  | nil state => exact ⟨session, rfl, hfiles, by simp [printed, Output.holding]⟩
  | @cons printout printouts first second third hprints _ ih =>
    subst hfiles
    rw [printed_cons] at hroom ⊢
    obtain ⟨hline, hothers⟩ := Output.hasRoom_append.mp hroom
    -- the first line is taken, and the room behind it is left for the others
    obtain ⟨between, hfirst, hsecond, houtput⟩ := exec_of_prints hprints
    rw [if_pos (Output.takesLine_iff_hasRoom.mpr hline)] at hfirst
    rw [Output.writeLine_of_hasRoom hline] at houtput
    obtain ⟨last, hrest, hlast, hheld⟩ := ih hsecond (houtput ▸ hothers)
    refine ⟨last, ?_, hlast, ?_⟩
    · rw [List.map_cons, exec_mapM_cons, hfirst]
      dsimp only
      rw [hrest]
      rfl
    · rw [hheld, houtput, Output.holding_holding]

/-- The step of a target whose line does not fit behind what a limited output holds. -/
theorem exec_of_cut {printout : Printout} {session : Session} {after : FileSystem} {limit : Nat}
    (h : Prints root config request now printout session.files after)
    (hlimit : session.output.limit? = some limit) (hheld : session.output.written.length ≤ limit)
    (hcut : limit < (session.output.written ++ lineBytes printout.text).length) :
    ∃ last, exec (announceTarget root config request now printout.target) session =
        (.error .outputClosed, last)
      ∧ last.files = after
      ∧ last.output.written =
        (session.output.written ++ lineBytes printout.text).take limit := by
  -- the line does not fit, since the output would hold more than its limit
  have hroom : ¬ session.output.HasRoom (lineBytes printout.text) := by
    intro hroom
    have := hroom limit hlimit
    rw [List.length_append] at hcut
    omega
  obtain ⟨last, hexec, hfiles, houtput⟩ := exec_of_prints h
  rw [if_neg (mt Output.takesLine_iff_hasRoom.mp hroom)] at hexec
  exact ⟨last, hexec, hfiles,
    by rw [houtput, Output.written_writeLine_of_limit hlimit hheld hroom]⟩

/-! ## §4 Announcements -/

/-- Sessions with the same files, each with an output of its own. -/
def SameFiles (firstOutput secondOutput : Output) (first second : Session) : Prop :=
  first.files = second.files ∧ first.output = firstOutput ∧ second.output = secondOutput

/-- The step of a version file reads the files of a session only, and prints nothing. -/
theorem exec_writeInto_sameFiles (root version : String) (dryRun : Bool)
    (place : String × List String) {firstOutput secondOutput : Output} {first second : Session}
    (h : SameFiles firstOutput secondOutput first second) :
    Alongside (SameFiles firstOutput secondOutput)
      (exec (VersionFiles.writeInto root version dryRun place) first)
      (exec (VersionFiles.writeInto root version dryRun place) second) := by
  obtain ⟨hfiles, houtput, houtput'⟩ := h
  obtain ⟨events, hfirst⟩ := exec_writeInto root version dryRun place first
  obtain ⟨events', hsecond⟩ := exec_writeInto root version dryRun place second
  rw [hfirst, hsecond, hfiles]
  cases versionEffect root version dryRun place second.files with
  | error fault => exact ⟨rfl, hfiles, houtput, houtput'⟩
  | ok files => exact ⟨rfl, rfl, houtput, houtput'⟩

/-- The end of an announcement reads the files of a session only, and prints nothing. -/
theorem exec_announceVersion_sameFiles (root : String) (config : Config) (request : Request)
    {first second : Session} (h : first.files = second.files) :
    Alongside (SameFiles first.output second.output)
      (exec (announceVersion root config request) first)
      (exec (announceVersion root config request) second) := by
  unfold announceVersion
  cases request.version? with
  | none => exact ⟨rfl, h, rfl, rfl⟩
  | some version =>
    dsimp only [VersionFiles.writeVersion]
    rw [exec_mapError, exec_mapError]
    -- each session keeps its output through all version files
    have hstart : SameFiles first.output second.output first second := ⟨h, rfl, rfl⟩
    obtain ⟨_, ⟨hresult, hkept⟩, _⟩ := alongside_mapM
      (fun _ => SameFiles first.output second.output)
      (fun place _ _ _ => exec_writeInto_sameFiles root version request.dryRun place) hstart
    exact ⟨congrArg (Except.mapError Fault.versionFile) hresult, hkept⟩

/-- Announcements from the same files to outputs with room for all that is printed. -/
theorem announce_of_hasRoom (first second : Session) {printouts : List Printout}
    {left : List Target} {updated : FileSystem}
    (horder : request.selector.targets = printouts.map (·.target) ++ left)
    (hsteps : Steps (Prints root config request now) printouts first.files updated)
    (hleft : Unprinted root config request now updated left)
    (hfiles : second.files = first.files) (hfirst : first.output.HasRoom (printed printouts))
    (hsecond : second.output.HasRoom (printed printouts)) :
    Alongside
      (SameFiles (first.output.holding (printed printouts))
        (second.output.holding (printed printouts)))
      (exec (announce root config request now) first)
      (exec (announce root config request now) second) := by
  -- up to the version both runs do the same, each beside its own output
  obtain ⟨between, hdone, hupdated, houtput⟩ := exec_targets_of_prints hsteps rfl hfirst
  obtain ⟨between', hdone', hupdated', houtput'⟩ := exec_targets_of_prints hsteps hfiles hsecond
  rw [exec_announce, exec_announce, horder, ← houtput, ← houtput']
  cases hleft with
  -- all targets have printed, so the version files come next
  | nothing =>
    rw [List.append_nil, hdone, hdone']
    obtain ⟨hresult, hkept⟩ := exec_announceVersion_sameFiles root config request
      (hupdated.trans hupdated'.symm)
    exact ⟨congrArg (Except.map (Report.mk _)) hresult, hkept⟩
  | @failing target later fault _ failed =>
    -- the failing target does nothing, to whichever output
    have hstops : ∀ session : Session, session.files = updated → ∃ last,
        exec (announceTarget root config request now target) session = (.error fault, last)
          ∧ last.files = updated ∧ last.output = session.output := by
      intro session hsession
      obtain ⟨hresult, hkept, hwritten⟩ :=
        exec_announceTarget_eq root config request now target session
      rw [hsession, failed] at hresult hkept hwritten
      exact ⟨_, Prod.ext hresult rfl, hkept, hwritten⟩
    obtain ⟨last, hlast, hkept, hwritten⟩ := hstops between hupdated
    obtain ⟨last', hlast', hkept', hwritten'⟩ := hstops between' hupdated'
    rw [exec_mapM_error later hdone hlast, exec_mapM_error later hdone' hlast']
    exact ⟨rfl, hkept.trans hkept'.symm, hwritten, hwritten'⟩

/-- An announcement to an output that cuts off the manifest of a target has saved that manifest and
those before it, and stops. -/
theorem announce_of_cut (events : List Log.Event) {done : List Printout} {last : Printout}
    {left : List Target} {files before after : FileSystem} {limit : Nat}
    (horder : request.selector.targets =
      done.map (·.target) ++ last.target :: left)
    (hdone : Steps (Prints root config request now) done files before)
    (hlast : Prints root config request now last before after)
    (hroom : (printed done).length ≤ limit)
    (hcut : limit < (printed (done ++ [last])).length) :
    ∃ stopped, exec (announce root config request now) ⟨files, ⟨some limit, []⟩, events⟩ =
        (.error .outputClosed, stopped)
      ∧ stopped.files = after
      ∧ stopped.output.written = (printed (done ++ [last])).take limit := by
  obtain ⟨between, htargets, rfl, hheld⟩ := exec_targets_of_prints
    (by exact hdone : Steps (Prints root config request now) done
      (⟨files, ⟨some limit, []⟩, events⟩ : Session).files before) rfl
    (Output.hasRoom_of_length_le hroom)
  -- the output holds the lines of the targets before the cut
  have hwritten : between.output.written = printed done := by
    rw [hheld]
    rfl
  rw [show printed (done ++ [last]) = printed done ++ lineBytes last.text by
    simp [printed]] at hcut ⊢
  -- so the limit is seen from what is held already
  rw [← hwritten] at hroom hcut ⊢
  obtain ⟨stopped, hstopped, hfiles, hbytes⟩ :=
    exec_of_cut hlast (by rw [hheld]; rfl) hroom hcut
  refine ⟨stopped, ?_, hfiles, hbytes⟩
  rw [exec_announce, horder, exec_mapM_error left htargets hstopped]

end

/-- An announcement to an output that takes `limit` bytes in all, beside the one to an output
without a limit.

What the unlimited output holds is the line of each target that gets as far as printing, in order;
the limited one holds the first `limit` bytes of that.  If they are all of it, both announcements
give the same result and files.  Otherwise the limited one fails with the output, and it has done
the steps of the targets up to the first one whose line ends beyond the limit, and nothing else. -/
theorem announce_limited (root : String) (config : Config) (request : Request) (now : Instant)
    (files : FileSystem) (events : List Log.Event) :
    let whole := exec (announce root config request now) ⟨files, ⟨none, []⟩, events⟩
    ∃ printouts left updated,
      request.selector.targets = printouts.map (·.target) ++ left
      ∧ Steps (Prints root config request now) printouts files updated
      ∧ Unprinted root config request now updated left
      ∧ whole.2.output.written = printed printouts
      ∧ ∀ limit,
        let cut := exec (announce root config request now) ⟨files, ⟨some limit, []⟩, events⟩
        cut.2.output.written = whole.2.output.written.take limit
        ∧ (whole.2.output.written.length ≤ limit →
            cut.1 = whole.1 ∧ cut.2.files = whole.2.files)
        ∧ (limit < whole.2.output.written.length → cut.1 = .error .outputClosed
            ∧ ∃ done last later, printouts = done ++ last :: later
              ∧ (printed done).length ≤ limit ∧ limit < (printed (done ++ [last])).length
              ∧ Steps (Prints root config request now) (done ++ [last]) files cut.2.files) := by
  intro whole
  obtain ⟨printouts, left, updated, horder, hsteps, hleft⟩ :=
    exists_printouts root config request now request.selector.targets files
  have hroom : (⟨none, []⟩ : Output).HasRoom (printed printouts) :=
    Output.hasRoom_of_unlimited rfl
  -- without a limit there is room for every line
  have hwhole : whole.2.output.written = printed printouts := by
    obtain ⟨_, _, houtput, _⟩ := announce_of_hasRoom ⟨files, ⟨none, []⟩, events⟩
      ⟨files, ⟨none, []⟩, events⟩ horder hsteps hleft rfl hroom hroom
    show (exec (announce root config request now) ⟨files, ⟨none, []⟩, events⟩).2.output.written = _
    rw [houtput]
    rfl
  refine ⟨printouts, left, updated, horder, hsteps, hleft, hwhole, fun limit => ?_⟩
  intro cut
  rw [hwhole]
  by_cases hlimit : (printed printouts).length ≤ limit
  · -- there is room for all of it, so the limit makes no difference
    obtain ⟨hresult, hfiles, _, houtput⟩ :=
      announce_of_hasRoom ⟨files, ⟨none, []⟩, events⟩
        ⟨files, ⟨some limit, []⟩, events⟩ horder hsteps hleft rfl hroom
        (Output.hasRoom_of_length_le hlimit)
    refine ⟨?_, fun _ => ⟨hresult.symm, hfiles.symm⟩, fun hless => absurd hless (by omega)⟩
    show (exec (announce root config request now)
      ⟨files, ⟨some limit, []⟩, events⟩).2.output.written = _
    rw [houtput, List.take_of_length_le hlimit]
    rfl
  · -- the limit falls into one line, and the steps up to that target are the same
    obtain ⟨done, last, later, rfl, hdone, hlast⟩ := exists_cut (Nat.lt_of_not_le hlimit)
    obtain ⟨before, hbefore, hrest⟩ := hsteps.exists_of_append
    cases hrest with
    | @cons _ _ _ after _ hprints hlater =>
      have hcutOff : request.selector.targets =
          done.map (·.target) ++ last.target :: (later.map (·.target) ++ left) := by
        rw [horder]
        simp
      obtain ⟨stopped, hstopped, hfiles, hbytes⟩ :=
        announce_of_cut events hcutOff hbefore hprints hdone hlast
      have hcut : cut = (.error .outputClosed, stopped) := hstopped
      rw [hcut]
      refine ⟨?_, fun hless => absurd hless hlimit, fun _ => ⟨rfl, done, last, later, rfl, hdone,
        hlast, ?_⟩⟩
      · -- behind the line that is cut off nothing more is held
        rw [hbytes, show done ++ last :: later = (done ++ [last]) ++ later by simp,
          printed_append (done ++ [last]), List.take_append_of_le_length (Nat.le_of_lt hlast)]
      · rw [hfiles]
        exact hbefore.append (.cons hprints (.nil after))

/-- A project with an empty manifest. -/
def bareFiles : FileSystem := ⟨.directory [("feed.json", .file "\x7b\x7d".toUTF8)], []⟩

/-- A new date in the manifest of every target. -/
def datedRequest : Request := ⟨.all, none, none, .lenient, false⟩

/-- The second of three manifests is cut off in the middle. -/
theorem announce_limited_sample :
    let whole := exec (announce "." sampleConfig datedRequest ⟨0, 0⟩) ⟨bareFiles, ⟨none, []⟩, []⟩
    let cut := exec (announce "." sampleConfig datedRequest ⟨0, 0⟩) ⟨bareFiles, ⟨some 50, []⟩, []⟩
    50 < whole.2.output.written.length
      ∧ cut.1 = .error .outputClosed
      ∧ cut.2.output.written = whole.2.output.written.take 50
      ∧ whole.2.output.written.take 50 =
        utf8Bytes "\x7b\n  \"pub_date\": \"1970-01-01T00:00:00Z\"\n\x7d\n\x7b\n  \"pub_" := by
  intro whole cut
  have hlength : 50 < whole.2.output.written.length := by decide +kernel
  have hstart : whole.2.output.written.take 50 =
      utf8Bytes "\x7b\n  \"pub_date\": \"1970-01-01T00:00:00Z\"\n\x7d\n\x7b\n  \"pub_" := by
    decide +kernel
  obtain ⟨_, _, _, _, _, _, _, hlimited⟩ :=
    announce_limited "." sampleConfig datedRequest ⟨0, 0⟩ bareFiles []
  obtain ⟨hwritten, _, hcut⟩ := hlimited 50
  exact ⟨hlength, (hcut hlength).1, hwritten, hstart⟩

end Announcement

end UpdateFeed
