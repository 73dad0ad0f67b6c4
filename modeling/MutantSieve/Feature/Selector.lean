import MutantSieve.Feature.Setting
import MutantSieve.Filter.Basic

namespace MutantSieve

/-- A setting names no feature. -/
structure UnknownFeature where
  name : String
deriving DecidableEq

/-- The text of the error. -/
def UnknownFeature.message (e : UnknownFeature) : String := "Unknown feature: " ++ e.name

/-- Makes the filter of a feature, given the setting of the feature if there is one. -/
structure FilterFactory where
  description : String
  feature : Feature
  create : Option FeatureSetting → Filter

/-- Settings in the order in which they were made; the last one of a feature counts. -/
structure Selector where
  settings : List FeatureSetting := []
deriving DecidableEq

namespace Selector

/-- The setting that counts for a feature. -/
def settingFor (s : Selector) (feature : Feature) : Option FeatureSetting :=
  s.settings.reverse.find? (feature.isNamed ·.feature)

/-- Whether a feature is on, by its setting or else by default. -/
def isEnabled (s : Selector) (feature : Feature) : Bool :=
  (s.settingFor feature).elim feature.onByDefault FeatureSetting.isActive

/-- The first setting that names none of the features. -/
def unknown? (s : Selector) (features : List Feature) : Option UnknownFeature :=
  (s.settings.find? fun setting => !features.any (·.isNamed setting.feature)).map (⟨·.feature⟩)

/-- The filters of the features that are on, in the order of the factories, as one compound filter;
and an event for each feature that is off. -/
def assemble (s : Selector) (factories : List FilterFactory) :
    Except UnknownFeature (List Event × Filter) :=
  match s.unknown? (factories.map (·.feature)) with
  | some e => .error e
  | none =>
    let (enabled, disabled) := factories.partition (s.isEnabled ·.feature)
    .ok (disabled.map fun factory => .disabled factory.feature.name,
      .compound .filter (enabled.map fun factory => factory.create (s.settingFor factory.feature)))

end Selector

end MutantSieve
