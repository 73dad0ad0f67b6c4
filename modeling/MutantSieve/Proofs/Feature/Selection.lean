import MutantSieve.Filter.ReturnEquivalence
import Mathlib.Data.List.Basic

namespace MutantSieve

/-- A name without regard to the case of ASCII letters. -/
def foldedName (name : String) : List Char := name.toList.map Char.toLower

theorem Feature.isNamed_iff {feature : Feature} {name : String} :
    feature.isNamed name = true ↔ foldedName name = foldedName feature.name :=
  decide_eq_true_iff.trans eq_comm

variable {settings settings' : List FeatureSetting} {setting : FeatureSetting} {feature : Feature}
  {factories : List FilterFactory} {name : List Char}

/-- No setting has the name. -/
def Unset (settings : List FeatureSetting) (name : List Char) : Prop :=
  ∀ setting ∈ settings, foldedName setting.feature ≠ name

instance : Decidable (Unset settings name) := inferInstanceAs (Decidable (∀ _ ∈ _, _))

/-- The setting has the name, and no setting after it has. -/
def IsLast (settings : List FeatureSetting) (name : List Char) (setting : FeatureSetting) : Prop :=
  ∃ before after, settings = before ++ setting :: after ∧ foldedName setting.feature = name ∧
    Unset after name

/-- The setting names a feature that one of the factories provides. -/
def Provided (factories : List FilterFactory) (setting : FeatureSetting) : Prop :=
  ∃ factory ∈ factories, foldedName setting.feature = foldedName factory.feature.name

instance : Decidable (Provided factories setting) := inferInstanceAs (Decidable (∃ _ ∈ _, _))

/-- The filters of the features that are on, each made with the last setting of its feature, and the
events for those that are off, in the order of the factories. -/
inductive Chain (settings : List FeatureSetting) :
    List FilterFactory → List Event → List Filter → Prop
  | nil : Chain settings [] [] []
  | activated {factory rest setting events children} :
      IsLast settings (foldedName factory.feature.name) setting → setting.status = .activate →
      Chain settings rest events children →
      Chain settings (factory :: rest) events (factory.create (some setting) :: children)
  | deactivated {factory rest setting events children} :
      IsLast settings (foldedName factory.feature.name) setting → setting.status = .deactivate →
      Chain settings rest events children →
      Chain settings (factory :: rest) (.disabled factory.feature.name :: events) children
  | onByDefault {factory rest events children} :
      Unset settings (foldedName factory.feature.name) → factory.feature.onByDefault = true →
      Chain settings rest events children →
      Chain settings (factory :: rest) events (factory.create none :: children)
  | offByDefault {factory rest events children} :
      Unset settings (foldedName factory.feature.name) → factory.feature.onByDefault = false →
      Chain settings rest events children →
      Chain settings (factory :: rest) (.disabled factory.feature.name :: events) children

/-- An overridden setting is dropped, or two neighbouring settings of different names change
places. -/
inductive Rearranged : List FeatureSetting → List FeatureSetting → Prop
  | drop {before setting after} : ¬ Unset after (foldedName setting.feature) →
      Rearranged (before ++ setting :: after) (before ++ after)
  | swap {before first second after} :
      foldedName first.feature ≠ foldedName second.feature →
      Rearranged (before ++ first :: second :: after) (before ++ second :: first :: after)

theorem Rearranged.subset (rearranged : Rearranged settings settings') : settings' ⊆ settings := by
  cases rearranged with
  | drop => exact ((List.sublist_cons_self _ _).append_left _).subset
  | swap => exact ((List.Perm.swap _ _ _).append_left _).subset

namespace Selector

theorem settingFor_eq_some_iff : (Selector.mk settings).settingFor feature = some setting ↔
    IsLast settings (foldedName feature.name) setting := by
  rw [settingFor, List.find?_eq_some_iff_append]
  constructor
  · rintro ⟨named, later, earlier, reversed, others⟩
    refine ⟨earlier.reverse, later.reverse, ?_, Feature.isNamed_iff.mp named,
      fun other member same => ?_⟩
    · rw [← settings.reverse_reverse, reversed, List.reverse_append, List.reverse_cons,
        List.append_assoc, List.singleton_append]
    · have unnamed := others other (List.mem_reverse.mp member)
      rw [Feature.isNamed_iff.mpr same] at unnamed
      cases unnamed
  · rintro ⟨earlier, later, rfl, same, unset⟩
    refine ⟨Feature.isNamed_iff.mpr same, later.reverse, earlier.reverse, by simp,
      fun other member => ?_⟩
    rw [Bool.not_eq_true', Bool.eq_false_iff, ne_eq, Feature.isNamed_iff]
    exact unset other (List.mem_reverse.mp member)

theorem settingFor_eq_none_iff : (Selector.mk settings).settingFor feature = none ↔
    Unset settings (foldedName feature.name) := by
  rw [settingFor, List.find?_eq_none]
  simp only [List.mem_reverse, Feature.isNamed_iff]
  rfl

theorem settingFor_append : (Selector.mk (settings ++ settings')).settingFor feature =
    ((Selector.mk settings').settingFor feature).or
      ((Selector.mk settings).settingFor feature) := by
  simp only [settingFor, List.reverse_append, List.find?_append]

theorem settingFor_cons : (Selector.mk (setting :: settings)).settingFor feature =
    ((Selector.mk settings).settingFor feature).or
      (if foldedName setting.feature = foldedName feature.name then some setting else none) := by
  rw [← List.singleton_append, settingFor_append]
  refine congrArg _ ?_
  by_cases same : foldedName setting.feature = foldedName feature.name
  · rw [if_pos same]
    exact List.find?_cons_of_pos (Feature.isNamed_iff.mpr same)
  · rw [if_neg same]
    exact List.find?_cons_of_neg (mt Feature.isNamed_iff.mp same)

theorem settingFor_rearranged (rearranged : Rearranged settings settings') :
    (Selector.mk settings).settingFor feature = (Selector.mk settings').settingFor feature := by
  cases rearranged with
  | @drop before setting after overridden =>
    rw [settingFor_append, settingFor_append, settingFor_cons]
    split
    · next same =>
      rw [same, ← settingFor_eq_none_iff] at overridden
      obtain ⟨later, found⟩ := Option.ne_none_iff_exists'.mp overridden
      rw [found, Option.some_or]
    · rw [Option.or_none]
  | @swap before first second after other =>
    simp only [settingFor_append, settingFor_cons]
    -- Only one of the two may name the feature.
    by_cases same : foldedName first.feature = foldedName feature.name
    · have apart : foldedName second.feature ≠ foldedName feature.name :=
        fun same' => other (same.trans same'.symm)
      simp only [if_pos same, if_neg apart, Option.or_none]
    · simp only [if_neg same, Option.or_none]

theorem any_isNamed_iff : (factories.map (·.feature)).any (·.isNamed setting.feature) = true ↔
    Provided factories setting := by
  simp only [List.any_map, List.any_eq_true, Function.comp, Feature.isNamed_iff, Provided]

theorem unknown?_eq_none (known : ∀ setting ∈ settings, Provided factories setting) :
    (Selector.mk settings).unknown? (factories.map (·.feature)) = none := by
  rw [unknown?, Option.map_eq_none_iff, List.find?_eq_none]
  intro setting member
  rw [any_isNamed_iff.mpr (known setting member)]
  exact Bool.false_ne_true

theorem exists_first_unknown (unknown : ∃ setting ∈ settings, ¬ Provided factories setting) :
    ∃ before setting after, settings = before ++ setting :: after ∧
      (∀ earlier ∈ before, Provided factories earlier) ∧ ¬ Provided factories setting := by
  obtain ⟨other, member, unprovided⟩ := unknown
  have found : (settings.find? fun setting => ¬ Provided factories setting).isSome = true :=
    List.find?_isSome.mpr ⟨other, member, decide_eq_true unprovided⟩
  obtain ⟨setting, first⟩ := Option.isSome_iff_exists.mp found
  obtain ⟨this, before, after, parts, known⟩ := List.find?_eq_some_iff_append.mp first
  exact ⟨before, setting, after, parts, by simpa using known, of_decide_eq_true this⟩

theorem assemble_unknown {before after : List FeatureSetting}
    (known : ∀ earlier ∈ before, Provided factories earlier)
    (unknown : ¬ Provided factories setting) :
    (Selector.mk (before ++ setting :: after)).assemble factories = .error ⟨setting.feature⟩ := by
  have first : (Selector.mk (before ++ setting :: after)).unknown? (factories.map (·.feature)) =
      some ⟨setting.feature⟩ := by
    refine Option.map_eq_some_iff.mpr ⟨setting, List.find?_eq_some_iff_append.mpr ?_, rfl⟩
    refine ⟨?_, before, after, rfl, fun earlier member => ?_⟩
    · rw [Bool.not_eq_true', Bool.eq_false_iff, ne_eq, any_isNamed_iff]
      exact unknown
    · rw [Bool.not_not, any_isNamed_iff]
      exact known earlier member
  rw [assemble, first]

/-- The filters of the features that are on. -/
def enabledFilters (s : Selector) (factories : List FilterFactory) : List Filter :=
  (factories.filter (s.isEnabled ·.feature)).map fun factory =>
    factory.create (s.settingFor factory.feature)

/-- The events for the features that are off. -/
def disabledEvents (s : Selector) (factories : List FilterFactory) : List Event :=
  (factories.filter (!s.isEnabled ·.feature)).map (.disabled ·.feature.name)

theorem enabledFilters_cons (s : Selector) (factory : FilterFactory) :
    s.enabledFilters (factory :: factories) =
      if s.isEnabled factory.feature then
        factory.create (s.settingFor factory.feature) :: s.enabledFilters factories
      else s.enabledFilters factories := by
  rw [enabledFilters, List.filter_cons]
  split <;> rfl

theorem disabledEvents_cons (s : Selector) (factory : FilterFactory) :
    s.disabledEvents (factory :: factories) =
      if s.isEnabled factory.feature then s.disabledEvents factories
      else .disabled factory.feature.name :: s.disabledEvents factories := by
  rw [disabledEvents, List.filter_cons]
  cases s.isEnabled factory.feature <;> rfl

theorem assemble_known (known : ∀ setting ∈ settings, Provided factories setting) :
    (Selector.mk settings).assemble factories =
      .ok ((Selector.mk settings).disabledEvents factories,
        .compound .filter ((Selector.mk settings).enabledFilters factories)) := by
  rw [assemble, unknown?_eq_none known]
  simp only [List.partition_eq_filter_filter]
  rfl

theorem isEnabled_of_isLast (last : IsLast settings (foldedName feature.name) setting) :
    (Selector.mk settings).isEnabled feature = setting.isActive := by
  rw [isEnabled, settingFor_eq_some_iff.mpr last, Option.elim_some]

theorem isEnabled_of_unset (unset : Unset settings (foldedName feature.name)) :
    (Selector.mk settings).isEnabled feature = feature.onByDefault := by
  rw [isEnabled, settingFor_eq_none_iff.mpr unset, Option.elim_none]

theorem chain (settings : List FeatureSetting) (factories : List FilterFactory) :
    Chain settings factories ((Selector.mk settings).disabledEvents factories)
      ((Selector.mk settings).enabledFilters factories) := by
  induction factories with
  | nil => exact .nil
  | cons factory rest ih =>
    rw [disabledEvents_cons, enabledFilters_cons]
    cases counts : (Selector.mk settings).settingFor factory.feature with
    | some setting =>
      have last := settingFor_eq_some_iff.mp counts
      rw [isEnabled_of_isLast last, FeatureSetting.isActive]
      cases status : setting.status with
      | activate => exact .activated last status ih
      | deactivate => exact .deactivated last status ih
    | none =>
      have unset := settingFor_eq_none_iff.mp counts
      rw [isEnabled_of_unset unset]
      cases default : factory.feature.onByDefault with
      | true => exact .onByDefault unset default ih
      | false => exact .offByDefault unset default ih

/-- Only what counts for each feature matters. -/
theorem assemble_congr (known : ∀ setting ∈ settings, Provided factories setting)
    (known' : ∀ setting ∈ settings', Provided factories setting)
    (same : ∀ feature, (Selector.mk settings').settingFor feature =
      (Selector.mk settings).settingFor feature) :
    (Selector.mk settings').assemble factories = (Selector.mk settings).assemble factories := by
  rw [assemble_known known, assemble_known known']
  simp only [disabledEvents, enabledFilters, isEnabled, same]

theorem settingFor_congr (same : ∀ name setting,
    IsLast settings name setting ↔ IsLast settings' name setting) (feature : Feature) :
    (Selector.mk settings').settingFor feature = (Selector.mk settings).settingFor feature :=
  Option.ext fun setting =>
    settingFor_eq_some_iff.trans ((same _ setting).symm.trans settingFor_eq_some_iff.symm)

/-- The first setting that names no feature makes the selection fail. If there is none, the filters
are those of the features that are on by their last settings or, without one, by default; nothing
but the last setting of each name matters. -/
theorem assemble_selects (settings : List FeatureSetting) (factories : List FilterFactory) :
    ((∃ setting ∈ settings, ¬ Provided factories setting) →
        ∃ before setting after, settings = before ++ setting :: after ∧
          (∀ earlier ∈ before, Provided factories earlier) ∧ ¬ Provided factories setting ∧
          (Selector.mk settings).assemble factories = .error ⟨setting.feature⟩) ∧
      ((∀ setting ∈ settings, Provided factories setting) →
        (∃ events children, (Selector.mk settings).assemble factories =
            .ok (events, .compound .filter children) ∧
          Chain settings factories events children) ∧
        (∀ settings', (∀ setting ∈ settings', Provided factories setting) →
          (∀ name setting, IsLast settings name setting ↔ IsLast settings' name setting) →
            (Selector.mk settings').assemble factories =
              (Selector.mk settings).assemble factories) ∧
        ∀ settings', Rearranged settings settings' →
          (Selector.mk settings').assemble factories =
            (Selector.mk settings).assemble factories) := by
  refine ⟨fun some => ?_, fun known => ⟨?_, fun settings' known' same => ?_,
    fun settings' rearranged => ?_⟩⟩
  · obtain ⟨before, setting, after, rfl, known, unknown⟩ := exists_first_unknown some
    exact ⟨before, setting, after, rfl, known, unknown, assemble_unknown known unknown⟩
  · exact ⟨_, _, assemble_known known, chain settings factories⟩
  · exact assemble_congr known known' (settingFor_congr same)
  · exact assemble_congr known (fun setting member => known setting (rearranged.subset member))
      fun feature => (settingFor_rearranged rearranged).symm

/-- Makes a filter that does nothing for each value of a parameter. -/
def limits : FilterFactory where
  description := "One idle filter for each limit"
  feature := { name := "LIMITS" }
  create setting := .compound .report
    ((setting.elim [] (·.parameters.values "limit")).map fun _ => .compound .other [])

/-- Sets two limits. -/
def twoLimits : FeatureSetting := ⟨"limits", .activate, .ofEntries [("limit", "3"), ("limit", "5")]⟩

/-- Sets one limit. -/
def oneLimit : FeatureSetting := ⟨"Limits", .activate, .ofEntries [("limit", "8")]⟩

/-- Switches off the filter for return values. -/
def returnsOff : FeatureSetting := { feature := "fretequiv", status := .deactivate }

/-- Limits that are set again are forgotten, wherever another feature is switched off; where a
feature does not exist, an error names it although it is switched off. -/
theorem assemble_selects_limits :
    let factories := [ReturnEquivalence.factory {}, limits]
    (Selector.mk [returnsOff, oneLimit]).assemble factories =
        (Selector.mk [twoLimits, oneLimit, returnsOff]).assemble factories ∧
      ∃ e, (Selector.mk [returnsOff, { feature := "limit", status := .deactivate }]).assemble
        factories = .error e := by
  intro factories
  obtain ⟨-, selected⟩ := assemble_selects [twoLimits, oneLimit, returnsOff] factories
  obtain ⟨-, -, forget⟩ := selected (by decide)
  obtain ⟨-, selected⟩ := assemble_selects [oneLimit, returnsOff] factories
  obtain ⟨-, -, reorder⟩ := selected (by decide)
  refine ⟨?_, ?_⟩
  · have forgotten := forget [oneLimit, returnsOff]
      (@Rearranged.drop [] twoLimits [oneLimit, returnsOff] (by decide))
    have reordered := reorder [returnsOff, oneLimit]
      (@Rearranged.swap [] oneLimit returnsOff [] (by decide))
    exact reordered.trans forgotten
  · obtain ⟨_, setting, _, -, -, -, failed⟩ := (assemble_selects
      [returnsOff, { feature := "limit", status := .deactivate }] factories).1 (by decide)
    exact ⟨_, failed⟩

end Selector

end MutantSieve
