import MutantSieve.BinaryFloat

namespace MutantSieve

/-- A JSON value. Whole numbers are kept apart from all other numbers. -/
inductive Json where
  | null
  | bool (value : Bool)
  | integer (value : Int)
  | real (value : Binary64)
  | string (value : String)
  | array (items : List Json)
  | object (fields : List (String × Json))

/-- A type with a written form; not every JSON value has to be one. -/
class JsonForm (α : Type) where
  encode : α → Json
  decode : Json → Option α

namespace Json

/-- A whole number within bounds. -/
def integer? (low high : Int) : Json → Option Int
  | integer n => if low ≤ n ∧ n ≤ high then some n else none
  | _ => none

/-- The nearest double precision number, from any number. -/
def binary64? : Json → Option Binary64
  | integer n => some (.ofInt n)
  | real x => some x
  | _ => none

/-- The nearest single precision number, from any number. -/
def binary32? : Json → Option Binary32
  | integer n => some (.ofInt n)
  | real x => some x.narrow
  | _ => none

/-- A floating-point number; JSON has no other than finite ones. -/
def ofBinary64 (x : Binary64) : Json := if x.isFinite then real x else null

/-- The value of a field. -/
def find? (name : String) (fields : List (String × Json)) : Option Json :=
  (fields.find? (·.1 = name)).map (·.2)

/-- The values of the named fields of an object, as far as it has them. -/
def fields? (names : List String) : Json → Option (List (Option Json))
  | object fields => some (names.map (find? · fields))
  | _ => none

/-- The fields of a record, which is an object, or an array of the values of its fields in order
with the last ones left out where there are fewer. -/
def record? (names : List String) : Json → Option (List (Option Json))
  | array items =>
    if items.length ≤ names.length then some (names.mapIdx fun i _ => items[i]?) else none
  | j => j.fields? names

/-- The name of an alternative and what is written with it: nothing for a string, the value of the
field for an object with one field. -/
def alternative? : Json → Option (String × Option Json)
  | string name => some (name, none)
  | object [(name, value)] => some (name, some value)
  | _ => none

/-- An object with one field, the written form of an alternative. -/
def alternative (name : String) (value : Json) : Json := object [(name, value)]

/-- An alternative without content, written with no value or with null. -/
def decodeName {α : Type} (all : List α) (name : α → String) (j : Json) : Option α :=
  match j.alternative? with
  | some (text, none) | some (text, some null) => all.find? (name · = text)
  | _ => none

/-- A field that may be missing or null. -/
def decodeOptional {α : Type} [JsonForm α] : Option Json → Option (Option α)
  | none | some null => some none
  | some j => (JsonForm.decode j).map some

/-- A field that may be missing, when it has a default. -/
def decodeOr {α : Type} [JsonForm α] (default : α) : Option Json → Option α
  | none => some default
  | some j => JsonForm.decode j

end Json

instance : JsonForm Bool where
  encode := .bool
  decode
    | .bool b => some b
    | _ => none

instance : JsonForm String where
  encode := .string
  decode
    | .string s => some s
    | _ => none

instance : JsonForm UInt32 where
  encode n := .integer n.toNat
  decode j := (j.integer? 0 4294967295).map fun n => UInt32.ofNat n.toNat

instance : JsonForm UInt64 where
  encode n := .integer n.toNat
  decode j := (j.integer? 0 18446744073709551615).map fun n => UInt64.ofNat n.toNat

instance : JsonForm Int32 where
  encode n := .integer n.toInt
  decode j := (j.integer? (-2147483648) 2147483647).map Int32.ofInt

instance : JsonForm Int64 where
  encode n := .integer n.toInt
  decode j := (j.integer? (-9223372036854775808) 9223372036854775807).map Int64.ofInt

instance {α : Type} [JsonForm α] : JsonForm (List α) where
  encode items := .array (items.map JsonForm.encode)
  decode
    | .array items => items.mapM JsonForm.decode
    | _ => none

instance {α : Type} [JsonForm α] : JsonForm (Array α) where
  encode items := JsonForm.encode items.toList
  decode j := (JsonForm.decode j : Option (List α)).map List.toArray

end MutantSieve
