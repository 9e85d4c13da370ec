import UpdateFeed.Proofs.Config.Overriding
import UpdateFeed.Proofs.Text.ByteOrder
import UpdateFeed.Proofs.Toml.Keys

/-!
# Loaded configurations

A configuration file names each target at most once, since its text gives no key twice.  So what it
overrides is clear, and the order of the text plays no part.

Whatever is loaded leaves every target with a template that has a placeholder, and with at least one
platform: the built-in settings have them, and overrides without them are refused.

- `nodup_of_decode`: no target is named twice.
- `usable_of_ofProject`: what every configuration of a project has.
- `ofFile_overriding`: when a configuration file is taken, what it changes, and its fault.
- `downloadAddress_injective`: different versions have different addresses.
-/

namespace UpdateFeed

/-! ## §1 Names in a file -/

namespace Overrides

theorem keys_of_decodeEntries {entries : List (String × Toml.Value)}
    {targets : List (String × SettingsOverrides)}
    (h : (entries.mapM fun (name, value) => (decodeSettings value).map (name, ·)) =
      .ok targets) : targets.map Prod.fst = entries.map Prod.fst := by
  induction entries generalizing targets with
  | nil =>
    obtain rfl := Except.ok.inj h
    rfl
  | cons entry entries ih =>
    rw [List.mapM_cons] at h
    obtain ⟨found, hfound, h⟩ := exists_of_bind_eq_ok h
    obtain ⟨others, hothers, h⟩ := exists_of_bind_eq_ok h
    obtain ⟨settings, -, rfl⟩ := map_eq_ok.mp hfound
    obtain rfl := Except.ok.inj h
    rw [List.map_cons, List.map_cons, ih hothers]

theorem nodup_of_decodeTargets {value : Toml.Value} (hvalue : value.HasUniqueKeys)
    {targets : List (String × SettingsOverrides)} (h : decodeTargets value = .ok targets) :
    (targets.map Prod.fst).Nodup := by
  unfold decodeTargets at h
  split at h
  · rw [keys_of_decodeEntries h]
    cases hvalue with
    | scalar scalar => exact scalar.elim
    | table nodup each => exact nodup
  · obtain ⟨settings, -, rfl⟩ := map_eq_ok.mp h
    exact List.nodup_singleton _
  · cases h

theorem nodup_of_decodeEntry {entry : String × Toml.Value} (hentry : entry.2.HasUniqueKeys)
    {first last : Overrides} (hfirst : (first.targets.map Prod.fst).Nodup)
    (h : decodeEntry first entry = .ok last) : (last.targets.map Prod.fst).Nodup := by
  unfold decodeEntry at h
  split at h
  · obtain ⟨targets, htargets, rfl⟩ := map_eq_ok.mp h
    exact nodup_of_decodeTargets hentry htargets
  · obtain ⟨versionFiles, -, rfl⟩ := map_eq_ok.mp h
    exact hfirst
  · cases h

theorem nodup_of_decodeEntries {entries : List (String × Toml.Value)}
    (hentries : ∀ entry ∈ entries, entry.2.HasUniqueKeys) {first last : Overrides}
    (hfirst : (first.targets.map Prod.fst).Nodup)
    (h : entries.foldlM decodeEntry first = .ok last) : (last.targets.map Prod.fst).Nodup := by
  induction entries generalizing first with
  | nil =>
    obtain rfl := Except.ok.inj h
    exact hfirst
  | cons entry entries ih =>
    rw [List.foldlM_cons] at h
    obtain ⟨between, hbetween, h⟩ := exists_of_bind_eq_ok h
    obtain ⟨hentry, hentries⟩ := List.forall_mem_cons.mp hentries
    exact ih hentries (nodup_of_decodeEntry hentry hfirst hbetween) h

/-- No target is named twice. -/
theorem nodup_of_decode {entries : List (String × Toml.Value)}
    (hentries : (Toml.Value.table entries).HasUniqueKeys) {overrides : Overrides}
    (h : decode entries = .ok overrides) : (overrides.targets.map Prod.fst).Nodup := by
  cases hentries with
  | scalar scalar => exact scalar.elim
  | table nodup each =>
    have hstart : ((default : Overrides).targets.map Prod.fst).Nodup := List.nodup_nil
    exact nodup_of_decodeEntries each hstart h

end Overrides

namespace Config

/-! ## §2 Usable configurations -/

/-- A configuration in which every target has a template with a placeholder, and a platform. -/
structure Usable (config : Config) : Prop where
  template (target : Target) :
    Template.placeholder.toList <:+: (config.settings target).addressTemplate.toList
  platforms (target : Target) : (config.settings target).platforms ≠ []

theorem usable_standard : Usable standard where
  template target := by
    rw [← Template.hasPlaceholder_iff]
    cases target <;> decide +kernel
  platforms target := by
    cases target <;> decide

section

variable {config changed : Config} {path content : String} {files : FileSystem}

/-- Overrides that are taken keep a configuration usable. -/
theorem Usable.overrideTarget {entry : String × SettingsOverrides} (h : Usable config)
    (hchanged : overrideTarget config entry = .ok changed) : Usable changed := by
  have hsound := sound_of_overrideTarget hchanged
  obtain ⟨target, -, htaken⟩ := overrideTarget_of_sound hsound
  obtain rfl := Except.ok.inj ((htaken config).symm.trans hchanged)
  constructor
  · intro other
    rw [settings_withSettings]
    split
    · -- the template of the target is a new one, which has a placeholder, or the old one
      unfold SettingsOverrides.applied
      cases hgiven : entry.2.addressTemplate? with
      | none => exact h.template target
      | some template => exact hsound.template template hgiven
    · exact h.template other
  · intro other
    rw [settings_withSettings]
    split
    · unfold SettingsOverrides.applied
      cases hgiven : entry.2.platforms? with
      | none => exact h.platforms target
      | some platforms =>
        rintro rfl
        exact hsound.platforms hgiven
    · exact h.platforms other

theorem Usable.override {overrides : Overrides} (h : Usable config)
    (hchanged : config.override overrides = .ok changed) : Usable changed := by
  rw [override_eq] at hchanged
  obtain ⟨last, hlast, rfl⟩ := map_eq_ok.mp hchanged
  have husable := foldlM_invariant (fun _ _ _ => Usable.overrideTarget) h hlast
  constructor
  · intro target
    rw [settings_with_versionFiles]
    exact husable.template target
  · intro target
    rw [settings_with_versionFiles]
    exact husable.platforms target

/-- Every configuration that is loaded is usable. -/
theorem usable_of_ofFile (h : ofFile files path = .ok config) : Usable config := by
  unfold ofFile ofText at h
  split at h
  · cases h
  · split at h
    · cases h
    · split at h
      · cases h
      · exact usable_standard.override h

/-- Every configuration of a project is usable. -/
theorem usable_of_ofProject {root : String} {named? : Option String}
    (h : ofProject files root named? = .ok config) : Usable config := by
  unfold ofProject at h
  split at h
  · exact usable_of_ofFile h
  · dsimp only at h
    split at h
    · exact usable_of_ofFile h
    · obtain rfl := Except.ok.inj h
      exact usable_standard

end

/-! ## §3 Configuration files -/

/-- The file at a path is a configuration text, with overrides. -/
def Holds (files : FileSystem) (path : String) (overrides : Overrides) : Prop :=
  ∃ content entries, files.readText path = .ok content ∧ Toml.parse? content = some entries
    ∧ Overrides.decode entries = .ok overrides

theorem Holds.ofFile {files : FileSystem} {path : String} {overrides : Overrides}
    (h : Holds files path overrides) : ofFile files path = standard.override overrides := by
  obtain ⟨content, entries, hread, hparse, hdecode⟩ := h
  simp only [Config.ofFile, hread, ofText, hparse, hdecode]

theorem Holds.nodup {files : FileSystem} {path : String} {overrides : Overrides}
    (h : Holds files path overrides) : (overrides.targets.map Prod.fst).Nodup := by
  obtain ⟨content, entries, -, hparse, hdecode⟩ := h
  exact Overrides.nodup_of_decode (Toml.hasUniqueKeys_of_parse? hparse) hdecode

/-- What comes of a configuration file.  It is taken just when the overrides of every target are
sound, and then it replaces the settings that are given and no others.  If it is refused, then for
the faulty target whose name comes first by its bytes.  The order of the text plays no part.  Every
configuration there can be has a placeholder in the template of each target, and a platform. -/
theorem ofFile_overriding {files : FileSystem} {path : String} {overrides : Overrides}
    (h : Holds files path overrides) :
    (overrides.targets.map Prod.fst).Nodup
      ∧ ((∃ config, ofFile files path = .ok config) ↔
        ∀ entry ∈ overrides.targets, Sound entry)
      ∧ (∀ config, ofFile files path = .ok config → Overridden overrides config)
      ∧ (∀ fault, ofFile files path = .error fault →
        ∃ entry ∈ overrides.targets, Refused entry fault
          ∧ ∀ other ∈ overrides.targets, ¬ Sound other → utf8Bytes entry.1 ≤ utf8Bytes other.1)
      ∧ (∀ otherPath other, Holds files otherPath other →
        (∀ entry, entry ∈ other.targets ↔ entry ∈ overrides.targets) →
        other.versionFiles = overrides.versionFiles →
        ofFile files otherPath = ofFile files path)
      ∧ Usable standard
      ∧ (∀ files path config, ofFile files path = .ok config → Usable config)
      ∧ ∀ files root named? config, ofProject files root named? = .ok config → Usable config := by
  refine ⟨h.nodup, ?_, fun config hconfig => ?_, fun fault hfault => ?_,
    fun otherPath other hother hsame hfiles => ?_, usable_standard,
    fun _ _ _ => usable_of_ofFile, fun _ _ _ _ => usable_of_ofProject⟩
  · rw [h.ofFile]
    exact exists_override_iff
  · rw [h.ofFile] at hconfig
    exact overridden_of_override h.nodup hconfig
  · rw [h.ofFile] at hfault
    obtain ⟨entry, hentry, hrefused, hleast⟩ := refused_of_override hfault
    refine ⟨entry, hentry, hrefused, fun other hother hfaulty => ?_⟩
    -- names come in the order of their bytes
    have hle := hleast other hother hfaulty
    rw [← String.not_lt, ← utf8Bytes_lt_iff, List.not_lt] at hle
    exact hle
  · rw [h.ofFile, hother.ofFile, override_eq, override_eq,
      ordered_eq_of_mem_iff h.nodup hother.nodup hsame, hfiles]

/-- A directory with two configuration files: one that overrides a template and the path of a
version file, and one with two faulty targets, of which the second one has two faults. -/
def overridingFiles : FileSystem :=
  ⟨.directory
    [("manifest-sync.toml", .file
        ("[targets.linux]\nurl = 'https://x/\x7bver\x7bversion\x7d\x7d'\n"
          ++ "[metadata]\npackage_json = \"web.json\"\n").toUTF8),
      ("faulty.toml", .file
        ("[targets.windows]\nplatforms = []\n"
          ++ "[targets.linux]\nplatforms = []\nurl = 'https://x/'\n").toUTF8)],
    []⟩

/-- The overrides of the first of the files. -/
def goodOverrides : Overrides :=
  ⟨[("linux", ⟨none, none, some "https://x/\x7bver\x7bversion\x7d\x7d", none⟩)],
    ⟨some "web.json", none⟩⟩

/-- The overrides of the second of the files. -/
def faultyOverrides : Overrides :=
  ⟨[("windows", ⟨none, none, none, some []⟩),
      ("linux", ⟨none, none, some "https://x/", some []⟩)],
    ⟨none, none⟩⟩

theorem holds_of_decoded {files : FileSystem} {path content : String} {overrides : Overrides}
    (hread : files.readText path = .ok content)
    (hdecode : (Toml.parse? content).map Overrides.decode = some (.ok overrides)) :
    Holds files path overrides := by
  obtain ⟨entries, hparse, hdecode⟩ := Option.map_eq_some_iff.mp hdecode
  exact ⟨content, entries, hread, hparse, hdecode⟩

/-- The first of the files is taken. -/
theorem exists_overriding : ∃ config,
    ofFile overridingFiles "./manifest-sync.toml" = .ok config
      ∧ Overridden goodOverrides config := by
  have hholds : Holds overridingFiles "./manifest-sync.toml" goodOverrides :=
    holds_of_decoded rfl (by decide +kernel)
  have hsound : ∀ entry ∈ goodOverrides.targets, Sound entry := by
    intro entry hentry
    obtain rfl := List.mem_singleton.mp hentry
    refine ⟨by decide, fun template htemplate => ?_, by decide⟩
    obtain rfl := Option.some.inj htemplate
    decide +kernel
  obtain ⟨config, hconfig⟩ := exists_override_iff.mpr hsound
  exact ⟨config, hholds.ofFile.trans hconfig, overridden_of_override hholds.nodup hconfig⟩

/-- Of two faulty targets the one with the smaller name is reported, and of its two faults the
template. -/
theorem ofFile_overriding_sample :
    Holds overridingFiles "faulty.toml" faultyOverrides
      ∧ ofFile overridingFiles "faulty.toml" = .error (.templateWithoutPlaceholder .linux)
      ∧ Usable standard
      ∧ ∀ config, ofFile overridingFiles "./manifest-sync.toml" = .ok config → Usable config := by
  have hholds : Holds overridingFiles "faulty.toml" faultyOverrides :=
    holds_of_decoded rfl (by decide +kernel)
  obtain ⟨-, htaken, -, hleast, -, hstandard, hloaded, -⟩ := ofFile_overriding hholds
  -- both targets are faulty, and the second one comes first by its bytes
  have hfirst : Refused ("windows", ⟨none, none, none, some []⟩) (.emptyPlatforms .windows) :=
    @Refused.platforms .windows _ (by simp) rfl
  have hsecond : Refused ("linux", ⟨none, none, some "https://x/", some []⟩)
      (.templateWithoutPlaceholder .linux) :=
    @Refused.template .linux _ "https://x/" rfl (by decide +kernel)
  refine ⟨hholds, ?_, hstandard, fun config => hloaded _ _ config⟩
  cases hresult : ofFile overridingFiles "faulty.toml" with
  | ok config =>
    have hsound := htaken.mp ⟨config, hresult⟩ _ List.mem_cons_self
    exact absurd hsound hfirst.not_sound
  | error fault =>
    obtain ⟨entry, hentry, hrefused, hmin⟩ := hleast fault hresult
    rcases List.mem_cons.mp hentry with rfl | hentry
    · have hle := hmin _ (List.mem_cons_of_mem _ List.mem_cons_self) hsecond.not_sound
      exact absurd hle (by decide +kernel)
    · obtain rfl := List.mem_singleton.mp hentry
      rw [hrefused.unique hsecond]

/-! ## §4 Addresses -/

/-- Two versions have two addresses, whatever configuration a project has. -/
theorem downloadAddress_injective {files : FileSystem} {root : String} {named? : Option String}
    {config : Config} (h : ofProject files root named? = .ok config) (target : Target) :
    Function.Injective (config.settings target).downloadAddress := by
  have hinfix := (usable_of_ofProject h).template target
  exact Template.fill_injective (Template.hasPlaceholder_iff.mpr hinfix)

/-- A template in which a filled placeholder may look like another one. -/
theorem downloadAddress_injective_sample : ∃ config,
    ofProject overridingFiles "." none = .ok config
      ∧ (config.settings .linux).downloadAddress "sion" = "https://x/\x7bversion\x7d"
      ∧ Function.Injective (config.settings .linux).downloadAddress := by
  obtain ⟨config, hfile, hoverridden⟩ := exists_overriding
  have hpath : Path.join "." fileName = "./manifest-sync.toml" := by decide +kernel
  have hthere : overridingFiles.isFile "./manifest-sync.toml" = true := by decide +kernel
  have hproject : ofProject overridingFiles "." none = .ok config := by
    simp only [ofProject, hpath, hthere, if_true, hfile]
  refine ⟨config, hproject, ?_, downloadAddress_injective hproject .linux⟩
  rw [TargetSettings.downloadAddress, hoverridden.addressTemplate]
  decide +kernel

end Config

end UpdateFeed
