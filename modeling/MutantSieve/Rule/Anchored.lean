import MutantSieve.Bytecode.Unit
import MutantSieve.Pattern.Matcher

namespace MutantSieve

/-- The slot for the instruction that a pattern is anchored at. -/
def anchorSlot : Slot .instruction := ⟨0, "mutated instruction"⟩

/-- A motif between any instructions and the anchor. -/
def Query.anchored (motif : Query) : Query :=
  zeroOrMore (matching .any) ++ motif ++ matching (.sameToken anchorSlot) ++
    zeroOrMore (matching .any)

/-- The matcher of an anchored motif, if the motif reads no slot too early. -/
def Query.anchoredMatcher? (motif : Query) : Except QueryError Matcher :=
  motif.anchored.compile (some .marker) [anchorSlot.key]

/-- The context in which a token is the anchor. -/
def Token.anchored (t : Token) : Context := Context.empty.storeToken anchorSlot t.id

/-- Whether a matcher finds its pattern anchored at an index of a method. -/
def Matcher.endsBefore (m : Matcher) (method : Method) (index : Nat) : Bool :=
  match method.body.token? index with
  | some anchor => (m.find? method.body anchor.anchored).isSome
  | none => false

end MutantSieve
