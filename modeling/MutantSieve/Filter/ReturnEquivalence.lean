import MutantSieve.Feature.Selector

namespace MutantSieve.ReturnEquivalence

/-- The feature that switches the filter. -/
def feature : Feature where
  name := "FRETEQUIV"
  onByDefault := true
  description := "Filters return vals mutants with bytecode equivalent to the unmutated class"

/-- The four rules for return values, each owning its mutators. -/
def rules (ids : MutatorIds) : List Rule :=
  [.primitiveZero ids.zeroSet, .nullReturns ids.nullSet, .emptyReturns ids.emptySet,
    .hardCodedTrue ids.trueSet]

/-- The four rules in sequence. -/
def filter (ids : MutatorIds) : Filter := .compound .filter ((rules ids).map .ofRule)

/-- Makes the filter, whatever the setting. -/
def factory (ids : MutatorIds) : FilterFactory where
  description := "Trivial return vals equivalence filter"
  feature
  create _ := filter ids

end MutantSieve.ReturnEquivalence
