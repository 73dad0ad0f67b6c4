import MutantSieve.Feature.Setting
import MutantSieve.Filter.Basic
import MutantSieve.Json.Value

namespace MutantSieve

open JsonForm

/-- The name a status is written under. -/
def ToggleStatus.name : ToggleStatus → String
  | activate => "Activate"
  | deactivate => "Deactivate"

instance : JsonForm ToggleStatus where
  encode status := .string status.name
  decode := Json.decodeName [.activate, .deactivate] ToggleStatus.name

/-- The name a kind is written under. -/
def FilterKind.name : FilterKind → String
  | other => "Other"
  | modify => "Modify"
  | filter => "Filter"
  | report => "Report"

instance : JsonForm FilterKind where
  encode kind := .string kind.name
  decode := Json.decodeName [.other, .modify, .filter, .report] FilterKind.name

instance : JsonForm Feature where
  encode f :=
    .object [("name", encode f.name), ("on_by_default", encode f.onByDefault),
      ("description", encode f.description)]
  decode j :=
    match j.record? ["name", "on_by_default", "description"] with
    | some [some name, some onByDefault, some description] =>
      return ⟨← decode name, ← decode onByDefault, ← decode description⟩
    | _ => none

instance : JsonForm Parameters where
  encode parameters := .object (parameters.entries.map fun (name, values) => (name, encode values))
  decode
    | .object fields => do
      let entries ← fields.mapM fun (name, values) => return (name, ← decode values)
      return .ofList entries
    | _ => none

instance : JsonForm FeatureSetting where
  encode s :=
    .object [("feature", encode s.feature), ("status", encode s.status),
      ("params", encode s.parameters)]
  decode j :=
    match j.record? ["feature", "status", "params"] with
    | some [some feature, some status, parameters] =>
      return ⟨← decode feature, ← decode status,
        ← Json.decodeOr (∅ : Parameters) parameters⟩
    | _ => none

end MutantSieve
