import MutantSieve.SortedMap.Basic

namespace MutantSieve

/-- A set of mutator ids. -/
structure MutatorSet where
  members : SortedMap String Unit
deriving DecidableEq

namespace MutatorSet

/-- The set of the listed ids. -/
def ofList (ids : List String) : MutatorSet := ⟨.ofList (ids.map (·, ()))⟩

/-- The ids in increasing order, each once. -/
def ids (set : MutatorSet) : List String := set.members.keys

/-- Whether an id is in the set. -/
def contains (set : MutatorSet) (id : String) : Bool := (set.members.get? id).isSome

/-- How many ids there are. -/
def size (set : MutatorSet) : Nat := set.members.size

end MutatorSet

/-- The ids of the mutators that replace return values: primitive ones by zero, booleans by true or
by false, objects by an empty value or by null. -/
structure MutatorIds where
  primitiveReturns : String := "PRIMITIVE_RETURNS"
  trueReturns : String := "TRUE_RETURNS"
  falseReturns : String := "FALSE_RETURNS"
  emptyReturns : String := "EMPTY_RETURNS"
  nullReturns : String := "NULL_RETURNS"
deriving DecidableEq

namespace MutatorIds

/-- All five ids. -/
def all (ids : MutatorIds) : List String :=
  [ids.primitiveReturns, ids.trueReturns, ids.falseReturns, ids.emptyReturns, ids.nullReturns]

/-- Mutators whose surrogate is a primitive zero. -/
def zeroSet (ids : MutatorIds) : MutatorSet := .ofList [ids.primitiveReturns, ids.falseReturns]

/-- Mutators whose surrogate is true. -/
def trueSet (ids : MutatorIds) : MutatorSet := .ofList [ids.trueReturns]

/-- Mutators whose surrogate is an empty, zero or false object. -/
def emptySet (ids : MutatorIds) : MutatorSet := .ofList [ids.emptyReturns, ids.falseReturns]

/-- Mutators whose surrogate is null. -/
def nullSet (ids : MutatorIds) : MutatorSet := .ofList [ids.nullReturns]

end MutatorIds

end MutantSieve
