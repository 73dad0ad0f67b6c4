import MutantSieve.Mutation.Basic
import MutantSieve.Mutation.MutatorSet
import MutantSieve.Rule.Anchored

namespace MutantSieve

/-- A test for mutants that are equivalent to the method they change. Only mutants of the owned
mutators are put to it. Where a rule cannot tell, it keeps the mutant. -/
structure Rule where
  name : String
  owned : MutatorSet
  isEquivalent : Mutation → Method → Bool

namespace Rule

/-- The type of boxed booleans. -/
def booleanType : String := "java/lang/Boolean"

/-- Types whose `valueOf` boxes a primitive value. -/
def boxTypes : List String :=
  ["java/lang/Integer", "java/lang/Long", "java/lang/Short", "java/lang/Byte",
    "java/lang/Character", "java/lang/Float", "java/lang/Double", booleanType]

/-- Factories by owner and name that make an empty value when called without arguments. -/
def emptyFactories : List (String × String) :=
  [("java/util/Optional", "empty"), ("java/util/stream/Stream", "empty"),
    ("java/util/Collections", "emptyList"), ("java/util/Collections", "emptyMap"),
    ("java/util/Collections", "emptySet"), ("java/util/List", "of"), ("java/util/Set", "of")]

/-- A call that boxes a primitive value. -/
def boxesPrimitive : Predicate := .anyOf (boxTypes.map (Predicate.callTo · "valueOf"))

/-- A call that makes an empty value. -/
def makesEmpty : Predicate :=
  .anyOf (emptyFactories.map fun (owner, name) =>
    (Predicate.callTo owner name).and (.plain .takesNoArguments))

/-- A boxed true: by boxing the constant 1, or by reading `Boolean.TRUE`. -/
def trueMotif : Query :=
  (Query.matching (.opcode .iconst1) ++ Query.matching (.callTo booleanType "valueOf")).orElse
    (Query.matching (.plain (.getStatic booleanType "TRUE")))

/-- An empty object: a boxed zero, `Boolean.FALSE`, or the value of an empty factory. -/
def emptyMotif : Query :=
  ((Query.matching (.plain .zeroConstant) ++ Query.matching boxesPrimitive).orElse
    (Query.matching (.plain (.getStatic booleanType "FALSE")))).orElse (Query.matching makesEmpty)

/-- The slot for the local variable that an empty value passes through. -/
def localSlot : Slot .localVariable := ⟨1, "local variable"⟩

/-- The value of an empty factory, stored to a local variable and loaded again with no store to that
variable between. A jump straight to the load is not ruled out. -/
def storedEmptyMotif : Query :=
  Query.matching makesEmpty ++
    Query.matching ((Predicate.opcode .astore).and (.captureVariable localSlot)) ++
    Query.zeroOrMore
      (Query.matching ((Predicate.opcode .astore).and (.sameVariable localSlot)).negate) ++
    Query.matching ((Predicate.opcode .aload).and (.sameVariable localSlot))

/-- Finds boxed trues. -/
def trueMatcher : Matcher := trueMotif.anchored.matcher (some .marker)

/-- Finds empty objects. -/
def emptyMatcher : Matcher := emptyMotif.anchored.matcher (some .marker)

/-- Finds empty objects that have passed through a local variable. -/
def storedEmptyMatcher : Matcher := storedEmptyMotif.anchored.matcher (some .marker)

theorem trueMatcher_compiles : trueMotif.anchoredMatcher? = .ok trueMatcher := rfl

theorem emptyMatcher_compiles : emptyMotif.anchoredMatcher? = .ok emptyMatcher := rfl

theorem storedEmptyMatcher_compiles : storedEmptyMotif.anchoredMatcher? = .ok storedEmptyMatcher :=
  rfl

/-- The operation of the nearest real instruction before the one at an index. -/
def opcodeBefore (method : Method) (index : Nat) : Option Opcode :=
  (method.realBefore index).bind (·.instruction.opcode?)

/-- Whether the empty string is loaded right before the instruction at an index. -/
def loadsEmptyString (method : Method) (index : Nat) : Bool :=
  (method.realBefore index).any (·.instruction.constant? = some (.string ""))

/-- A primitive zero is returned already. -/
def primitiveZero (owned : MutatorSet) : Rule where
  name := "primitive-zero"
  owned
  isEquivalent m method := (opcodeBefore method m.index.toNat).any Opcode.isZeroConstant

/-- Null is returned already. -/
def nullReturns (owned : MutatorSet) : Rule where
  name := "null-returns"
  owned
  isEquivalent m method := opcodeBefore method m.index.toNat = some .aconstNull

/-- A zero, false or empty object is returned already, directly or through one local variable. -/
def emptyReturns (owned : MutatorSet) : Rule where
  name := "empty-returns"
  owned
  isEquivalent m method :=
    emptyMatcher.endsBefore method m.index.toNat ||
      storedEmptyMatcher.endsBefore method m.index.toNat || loadsEmptyString method m.index.toNat

/-- True is returned already, as a primitive or boxed. -/
def hardCodedTrue (owned : MutatorSet) : Rule where
  name := "hard-coded-true"
  owned
  isEquivalent m method :=
    opcodeBefore method m.index.toNat = some .iconst1 ||
      trueMatcher.endsBefore method m.index.toNat

end Rule

end MutantSieve
