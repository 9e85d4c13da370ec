import Mathlib.Data.List.Nodup
import UpdateFeed.Config.Basic
import UpdateFeed.Proofs.Results
import UpdateFeed.Proofs.Template

/-!
# Overridden configurations

A configuration file overrides single settings of targets and leaves all others as they are.
Overrides are taken or refused target by target, and whether they are does not depend on what they
override; so a file is refused for the first of its faulty targets in the order of their names.

- `Sound`, `Refused`: the overrides of a target that are taken, and the fault of those that are not.
- `exists_override_iff`, `refused_of_override`: when overrides are taken, and their fault.
- `overridden_of_override`: the settings of a configuration with overrides.
-/

namespace UpdateFeed

/-! ## §1 Overrides of one target -/

namespace Target

@[simp] theorem ofName?_name (target : Target) : ofName? target.name = some target := by
  cases target <;> decide

theorem ofName?_eq_some_iff {name : String} {target : Target} :
    ofName? name = some target ↔ target.name = name := by
  constructor
  · intro h
    unfold ofName? at h
    have hname := List.find?_some h
    exact eq_of_beq hname
  · rintro rfl
    exact ofName?_name target

theorem mem_names_iff {name : String} :
    name ∈ ["darwin", "linux", "windows"] ↔ ∃ target : Target, target.name = name := by
  constructor
  · intro h
    have hall : ∀ name ∈ ["darwin", "linux", "windows"], ∃ target ∈ all, target.name = name := by
      decide
    obtain ⟨target, -, hname⟩ := hall name h
    exact ⟨target, hname⟩
  · rintro ⟨target, rfl⟩
    cases target <;> decide

theorem name_injective : Function.Injective name := by
  intro first second h
  have hfirst := ofName?_eq_some_iff.mpr h
  exact Option.some.inj (hfirst.symm.trans (ofName?_name second))

end Target

namespace SettingsOverrides

/-- Settings of which those that are given are replaced. -/
def applied (overrides : SettingsOverrides) (settings : TargetSettings) : TargetSettings :=
  { manifest := overrides.manifest?.getD settings.manifest
    signaturePattern := overrides.signaturePattern?.getD settings.signaturePattern
    addressTemplate := overrides.addressTemplate?.getD settings.addressTemplate
    platforms := overrides.platforms?.getD settings.platforms }

end SettingsOverrides

namespace Config

/-- Overrides that are taken: they name a target, their template has a placeholder if it is given,
and so does their list of platforms have a platform. -/
structure Sound (entry : String × SettingsOverrides) : Prop where
  named : entry.1 ∈ ["darwin", "linux", "windows"]
  template : ∀ template ∈ entry.2.addressTemplate?,
    Template.placeholder.toList <:+: template.toList
  platforms : entry.2.platforms? ≠ some []

/-- The fault of overrides that are not taken.  A template without a placeholder comes before an
empty list of platforms. -/
inductive Refused : String × SettingsOverrides → ConfigFault → Prop
  | name {name : String} {overrides : SettingsOverrides}
      (unknown : name ∉ ["darwin", "linux", "windows"]) :
      Refused (name, overrides) (.noSuchTarget name)
  | template {target : Target} {overrides : SettingsOverrides} {template : String}
      (given : overrides.addressTemplate? = some template)
      (lacking : ¬ Template.placeholder.toList <:+: template.toList) :
      Refused (target.name, overrides) (.templateWithoutPlaceholder target)
  | platforms {target : Target} {overrides : SettingsOverrides}
      (sound : ∀ template ∈ overrides.addressTemplate?,
        Template.placeholder.toList <:+: template.toList)
      (given : overrides.platforms? = some []) :
      Refused (target.name, overrides) (.emptyPlatforms target)

section

variable {entry : String × SettingsOverrides} {fault : ConfigFault}

theorem Refused.not_sound (h : Refused entry fault) : ¬ Sound entry := by
  intro hsound
  cases h with
  | name unknown => exact unknown hsound.named
  | template given lacking => exact lacking (hsound.template _ given)
  | platforms sound given => exact hsound.platforms given

theorem any_lacking_eq_false_iff {template? : Option String} :
    template?.any (!Template.hasPlaceholder ·) = false ↔
      ∀ template ∈ template?, Template.placeholder.toList <:+: template.toList := by
  cases template? with
  | none => simp
  | some template => simp [Template.hasPlaceholder_iff]

/-- Sound overrides replace the settings of their target. -/
theorem overrideTarget_of_sound (h : Sound entry) :
    ∃ target : Target, target.name = entry.1 ∧ ∀ config, overrideTarget config entry =
      .ok (config.withSettings target (entry.2.applied (config.settings target))) := by
  obtain ⟨target, hname⟩ := Target.mem_names_iff.mp h.named
  refine ⟨target, hname, fun config => ?_⟩
  simp only [overrideTarget, Target.ofName?_eq_some_iff.mpr hname, overrideSettings,
    any_lacking_eq_false_iff.mpr h.template, Bool.false_eq_true, if_false, h.platforms]
  rfl

/-- Overrides that are refused have a fault, whatever they override. -/
theorem overrideTarget_of_refused (h : Refused entry fault) (config : Config) :
    overrideTarget config entry = .error fault := by
  cases h with
  | name unknown =>
    rename_i name overrides
    have hnone : Target.ofName? name = none := by
      rw [Option.eq_none_iff_forall_ne_some]
      intro target htarget
      exact unknown (Target.mem_names_iff.mpr ⟨target, Target.ofName?_eq_some_iff.mp htarget⟩)
    simp only [overrideTarget, hnone]
  | template given lacking =>
    rename_i target overrides template
    have hany := eq_true_of_ne_false (mt any_lacking_eq_false_iff.mp
      fun hsound => lacking (hsound template given))
    simp only [overrideTarget, Target.ofName?_name, overrideSettings, hany, if_true]
    rfl
  | platforms sound given =>
    simp only [overrideTarget, Target.ofName?_name, overrideSettings,
      any_lacking_eq_false_iff.mpr sound, given, Bool.false_eq_true, if_false, if_true]
    rfl

/-- Overrides have at most one fault. -/
theorem Refused.unique {other : ConfigFault} (h : Refused entry fault)
    (hother : Refused entry other) : fault = other := by
  have hfault := overrideTarget_of_refused h default
  exact Except.error.inj (hfault.symm.trans (overrideTarget_of_refused hother default))

/-- Overrides are sound, or they have a fault. -/
theorem sound_or_refused (entry : String × SettingsOverrides) :
    Sound entry ∨ ∃ fault, Refused entry fault := by
  obtain ⟨name, overrides⟩ := entry
  by_cases hname : name ∈ ["darwin", "linux", "windows"]
  · obtain ⟨target, rfl⟩ := Target.mem_names_iff.mp hname
    by_cases hsound : ∀ template ∈ overrides.addressTemplate?,
        Template.placeholder.toList <:+: template.toList
    · by_cases hplatforms : overrides.platforms? = some []
      · exact .inr ⟨_, .platforms hsound hplatforms⟩
      · exact .inl ⟨hname, hsound, hplatforms⟩
    · obtain ⟨template, hgiven, hlacking⟩ : ∃ template,
          overrides.addressTemplate? = some template
            ∧ ¬ Template.placeholder.toList <:+: template.toList := by
        simpa using hsound
      exact .inr ⟨_, .template hgiven hlacking⟩
  · exact .inr ⟨_, .name hname⟩

/-- Overrides are taken just when they are sound. -/
theorem sound_of_overrideTarget {config changed : Config}
    (h : overrideTarget config entry = .ok changed) : Sound entry := by
  rcases sound_or_refused entry with hsound | ⟨fault, hrefused⟩
  · exact hsound
  · cases (overrideTarget_of_refused hrefused config).symm.trans h

theorem refused_of_overrideTarget {config : Config}
    (h : overrideTarget config entry = .error fault) : Refused entry fault := by
  rcases sound_or_refused entry with hsound | ⟨found, hrefused⟩
  · obtain ⟨target, -, htaken⟩ := overrideTarget_of_sound hsound
    cases (htaken config).symm.trans h
  · obtain rfl := Except.error.inj ((overrideTarget_of_refused hrefused config).symm.trans h)
    exact hrefused

end

/-! ## §2 Overrides of several targets -/

section

variable {entries : List (String × SettingsOverrides)} {first last : Config}

/-- Sound overrides are all taken. -/
theorem exists_of_sound (h : ∀ entry ∈ entries, Sound entry) (first : Config) :
    ∃ last, entries.foldlM overrideTarget first = .ok last := by
  induction entries generalizing first with
  | nil => exact ⟨first, rfl⟩
  | cons entry entries ih =>
    obtain ⟨hentry, hentries⟩ := List.forall_mem_cons.mp h
    obtain ⟨target, -, htaken⟩ := overrideTarget_of_sound hentry
    rw [List.foldlM_cons, htaken first]
    exact ih hentries _

theorem sound_of_foldlM (h : entries.foldlM overrideTarget first = .ok last) :
    ∀ entry ∈ entries, Sound entry := by
  induction entries generalizing first with
  | nil => simp
  | cons entry entries ih =>
    rw [List.foldlM_cons] at h
    obtain ⟨between, hentry, h⟩ := exists_of_bind_eq_ok h
    exact List.forall_mem_cons.mpr ⟨sound_of_overrideTarget hentry, ih h⟩

/-- The settings after the overrides of several targets.  A target that is named has its own
overrides applied, and one that is not keeps its settings. -/
theorem settings_of_foldlM (hnodup : (entries.map Prod.fst).Nodup)
    (h : entries.foldlM overrideTarget first = .ok last) (target : Target) :
    (∀ overrides, (target.name, overrides) ∈ entries →
        last.settings target = overrides.applied (first.settings target))
      ∧ (target.name ∉ entries.map Prod.fst → last.settings target = first.settings target) := by
  induction entries generalizing first with
  | nil =>
    obtain rfl := Except.ok.inj h
    simp
  | cons entry entries ih =>
    rw [List.map_cons, List.nodup_cons] at hnodup
    rw [List.foldlM_cons] at h
    obtain ⟨between, hentry, h⟩ := exists_of_bind_eq_ok h
    obtain ⟨hgiven, hkept⟩ := ih hnodup.2 h
    obtain ⟨changed, hname, htaken⟩ := overrideTarget_of_sound (sound_of_overrideTarget hentry)
    obtain rfl := Except.ok.inj ((htaken first).symm.trans hentry)
    -- the entry changes its target, which no later one names, and no other
    by_cases htarget : target = changed
    · subst htarget
      rw [← hname] at hnodup
      have hlast := hkept hnodup.1
      rw [settings_withSettings, if_pos rfl] at hlast
      constructor
      · intro overrides hmem
        rcases List.mem_cons.mp hmem with rfl | hmem
        · exact hlast
        · exact absurd (List.mem_map_of_mem hmem) hnodup.1
      · intro habsent
        exact absurd (by simp [hname]) habsent
    · rw [settings_withSettings, if_neg htarget] at hgiven hkept
      have hne : target.name ≠ entry.1 := by
        rw [← hname]
        exact fun heq => htarget (Target.name_injective heq)
      constructor
      · intro overrides hmem
        rcases List.mem_cons.mp hmem with rfl | hmem
        · exact absurd rfl hne
        · exact hgiven overrides hmem
      · intro habsent
        apply hkept
        exact fun hmem => habsent (List.mem_cons_of_mem _ hmem)

theorem versionFiles_of_foldlM (h : entries.foldlM overrideTarget first = .ok last) :
    last.versionFiles = first.versionFiles := by
  have hstep : ∀ (config : Config) (entry : String × SettingsOverrides) (changed : Config),
      config.versionFiles = first.versionFiles → overrideTarget config entry = .ok changed →
        changed.versionFiles = first.versionFiles := by
    intro config entry changed hkept hentry
    obtain ⟨target, -, htaken⟩ := overrideTarget_of_sound (sound_of_overrideTarget hentry)
    obtain rfl := Except.ok.inj ((htaken config).symm.trans hentry)
    rw [← hkept]
    cases target <;> rfl
  exact foldlM_invariant hstep rfl h

end

/-- The overrides of targets in the order of their names. -/
def ordered (overrides : Overrides) : List (String × SettingsOverrides) :=
  overrides.targets.mergeSort fun a b => !decide (b.1 < a.1)

theorem mem_ordered {overrides : Overrides} {entry : String × SettingsOverrides} :
    entry ∈ ordered overrides ↔ entry ∈ overrides.targets :=
  List.mem_mergeSort

theorem perm_ordered (overrides : Overrides) : (ordered overrides).Perm overrides.targets :=
  List.mergeSort_perm _ _

theorem pairwise_ordered (overrides : Overrides) :
    (ordered overrides).Pairwise fun a b => a.1 ≤ b.1 := by
  have hle : ∀ a b : String × SettingsOverrides,
      (!decide (b.1 < a.1)) = true ↔ a.1 ≤ b.1 := by
    intro a b
    rw [Bool.not_eq_true', decide_eq_false_iff_not, String.not_lt]
  have hsorted : (ordered overrides).Pairwise fun a b => (!decide (b.1 < a.1)) = true := by
    apply List.pairwise_mergeSort
    · intro a b c hab hbc
      rw [hle] at hab hbc ⊢
      exact String.le_trans hab hbc
    · intro a b
      rw [Bool.or_eq_true, hle, hle]
      exact String.le_total a.1 b.1
  exact hsorted.imp fun h => (hle _ _).mp h

/-- The order of the text plays no part, as each target is named once. -/
theorem ordered_eq_of_mem_iff {first second : Overrides}
    (hfirst : (first.targets.map Prod.fst).Nodup) (hsecond : (second.targets.map Prod.fst).Nodup)
    (h : ∀ entry, entry ∈ second.targets ↔ entry ∈ first.targets) :
    ordered second = ordered first := by
  have hperm : second.targets.Perm first.targets :=
    (List.perm_ext_iff_of_nodup (.of_map _ hsecond) (.of_map _ hfirst)).mpr h
  refine List.Perm.eq_of_pairwise (fun a b ha hb hab hba => ?_) (pairwise_ordered second)
    (pairwise_ordered first)
    ((perm_ordered second).trans (hperm.trans (perm_ordered first).symm))
  exact List.inj_on_of_nodup_map hfirst ((h a).mp (mem_ordered.mp ha)) (mem_ordered.mp hb)
    (String.le_antisymm hab hba)

theorem override_eq (config : Config) (overrides : Overrides) :
    config.override overrides = ((ordered overrides).foldlM overrideTarget config).map
      fun changed => { changed with
        versionFiles := overrideVersionFiles changed.versionFiles overrides.versionFiles } := by
  show ((ordered overrides).foldlM overrideTarget config >>= _) = _
  cases (ordered overrides).foldlM overrideTarget config <;> rfl

/-- Overrides are taken just when those of every target are sound. -/
theorem exists_override_iff {config : Config} {overrides : Overrides} :
    (∃ changed, config.override overrides = .ok changed) ↔
      ∀ entry ∈ overrides.targets, Sound entry := by
  rw [override_eq]
  constructor
  · rintro ⟨changed, h⟩ entry hentry
    obtain ⟨last, hlast, -⟩ := map_eq_ok.mp h
    exact sound_of_foldlM hlast entry (mem_ordered.mpr hentry)
  · intro h
    obtain ⟨last, hlast⟩ := exists_of_sound (fun entry hentry => h entry (mem_ordered.mp hentry))
      config
    rw [hlast]
    exact ⟨_, rfl⟩

/-- The fault of overrides is that of the faulty target with the smallest name. -/
theorem refused_of_override {config : Config} {overrides : Overrides} {fault : ConfigFault}
    (h : config.override overrides = .error fault) :
    ∃ entry ∈ overrides.targets, Refused entry fault
      ∧ ∀ other ∈ overrides.targets, ¬ Sound other → entry.1 ≤ other.1 := by
  rw [override_eq] at h
  cases hfold : (ordered overrides).foldlM overrideTarget config with
  | ok last =>
    rw [hfold] at h
    cases h
  | error found =>
    rw [hfold] at h
    obtain rfl := Except.error.inj h
    obtain ⟨done, entry, later, between, horder, hdone, hentry⟩ := exists_of_foldlM_eq_error hfold
    have hsorted := pairwise_ordered overrides
    rw [horder, List.pairwise_append, List.pairwise_cons] at hsorted
    refine ⟨entry, mem_ordered.mp (by simp [horder]), refused_of_overrideTarget hentry, ?_⟩
    -- the targets before it are taken, and the others have greater names
    intro other hother hfaulty
    have hmem : other ∈ done ++ entry :: later := horder ▸ mem_ordered.mpr hother
    rcases List.mem_append.mp hmem with hmem | hmem
    · exact absurd (sound_of_foldlM hdone other hmem) hfaulty
    · rcases List.mem_cons.mp hmem with rfl | hmem
      · exact String.le_refl _
      · exact hsorted.2.1.1 other hmem

end Config

/-- The overrides for a target, which are none if it is not named. -/
def Overrides.forTarget (overrides : Overrides) (target : Target) : SettingsOverrides :=
  (overrides.targets.lookup target.name).getD default

namespace Config

/-- A configuration with overrides.  A setting is that of the overrides where they give it, and the
built-in one where they do not. -/
structure Overridden (overrides : Overrides) (config : Config) : Prop where
  manifest (target : Target) : (config.settings target).manifest =
    (overrides.forTarget target).manifest?.getD (TargetSettings.standard target).manifest
  signaturePattern (target : Target) : (config.settings target).signaturePattern =
    (overrides.forTarget target).signaturePattern?.getD
      (TargetSettings.standard target).signaturePattern
  addressTemplate (target : Target) : (config.settings target).addressTemplate =
    (overrides.forTarget target).addressTemplate?.getD
      (TargetSettings.standard target).addressTemplate
  platforms (target : Target) : (config.settings target).platforms =
    (overrides.forTarget target).platforms?.getD (TargetSettings.standard target).platforms
  packageJson : config.versionFiles.packageJson =
    overrides.versionFiles.packageJson?.getD standard.versionFiles.packageJson
  packagingConfig : config.versionFiles.packagingConfig =
    overrides.versionFiles.packagingConfig?.getD standard.versionFiles.packagingConfig

theorem settings_with_versionFiles (config : Config) (versionFiles : VersionFiles)
    (target : Target) :
    ({ config with versionFiles } : Config).settings target = config.settings target := by
  cases target <;> rfl

theorem settings_standard (target : Target) : standard.settings target = .standard target := by
  cases target <;> rfl

/-- The built-in configuration with overrides that are taken. -/
theorem overridden_of_override {overrides : Overrides} {config : Config}
    (hnodup : (overrides.targets.map Prod.fst).Nodup)
    (h : standard.override overrides = .ok config) : Overridden overrides config := by
  rw [override_eq] at h
  obtain ⟨last, hlast, rfl⟩ := map_eq_ok.mp h
  have hordered : ((ordered overrides).map Prod.fst).Nodup :=
    ((perm_ordered overrides).map Prod.fst).nodup_iff.mpr hnodup
  -- distinct names make the lookup in file order agree with the fold over the ordered tables: the
  -- one table of a target is the last word on it
  have hsettings : ∀ target, last.settings target =
      (overrides.forTarget target).applied (.standard target) := by
    intro target
    obtain ⟨hgiven, hkept⟩ := settings_of_foldlM hordered hlast target
    rw [settings_standard] at hgiven hkept
    unfold Overrides.forTarget
    cases hlookup : overrides.targets.lookup target.name with
    | none =>
      apply hkept
      rw [List.lookup_eq_none_iff] at hlookup
      intro hmem
      obtain ⟨entry, hentry, hname⟩ := List.mem_map.mp hmem
      have hne := hlookup entry (mem_ordered.mp hentry)
      simp [hname] at hne
    | some given =>
      apply hgiven
      obtain ⟨front, rest, heq, -⟩ := List.lookup_eq_some_iff.mp hlookup
      exact mem_ordered.mpr (by simp [heq])
  have hfiles := versionFiles_of_foldlM hlast
  constructor
  case packageJson => rw [← hfiles]; rfl
  case packagingConfig => rw [← hfiles]; rfl
  all_goals
    intro target
    rw [settings_with_versionFiles, hsettings target]
    rfl

end Config

end UpdateFeed
