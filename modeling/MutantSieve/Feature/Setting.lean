import MutantSieve.SortedMap.Basic

namespace MutantSieve

/-- What can be switched. -/
structure Feature where
  name : String
  onByDefault : Bool := false
  description : String := ""
deriving DecidableEq

/-- Whether a name means the feature; the case of ASCII letters does not matter. -/
def Feature.isNamed (feature : Feature) (name : String) : Bool :=
  feature.name.toList.map Char.toLower = name.toList.map Char.toLower

/-- Which way a setting switches. -/
inductive ToggleStatus where
  | activate | deactivate
deriving DecidableEq

/-- Lists of values by the name of their parameter. -/
abbrev Parameters := SortedMap String (List String)

namespace Parameters

/-- The values of a parameter; none if it does not occur. -/
def values (parameters : Parameters) (name : String) : List String :=
  (parameters.get? name).getD []

/-- The first value of a parameter. -/
def first? (parameters : Parameters) (name : String) : Option String :=
  (parameters.values name).head?

/-- Puts a value before those of a parameter. -/
def addFirst (parameters : Parameters) (name value : String) : Parameters :=
  parameters.insert name (value :: parameters.values name)

/-- The parameters of a list of names with a value each; the values of one name stay in order. -/
def ofEntries (entries : List (String × String)) : Parameters :=
  entries.foldr (fun entry parameters => parameters.addFirst entry.1 entry.2) ∅

end Parameters

/-- One setting of a feature, such as `+NAME` or `-NAME(limit[10])`. -/
structure FeatureSetting where
  feature : String
  status : ToggleStatus
  parameters : Parameters := ∅
deriving DecidableEq

/-- Whether the setting switches its feature on. -/
def FeatureSetting.isActive (setting : FeatureSetting) : Bool := setting.status = .activate

end MutantSieve
