import MutantSieve.Pattern.Query

namespace MutantSieve

/-- The first slot that a predicate reads and that is not among the bound ones. -/
def Predicate.unbound? (p : Predicate) (bound : List SlotKey) : Option SlotKey :=
  p.reads.find? (· ∉ bound)

/-- The slots bound after a query on every way through it, given those bound before it; or the first
slot that is read too early. A repetition binds nothing for what follows, since it may take no
round. -/
def Query.boundAfter : Query → List SlotKey → Except SlotKey (List SlotKey)
  | done, bound => .ok bound
  | accept p rest, bound =>
    match p.unbound? bound with
    | some key => .error key
    | none => rest.boundAfter (withSlots bound p.writes)
  | reject p rest, bound =>
    match p.unbound? bound with
    | some key => .error key
    | none => rest.boundAfter bound
  | either left right rest, bound =>
    match left.boundAfter bound, right.boundAfter bound with
    | .ok l, .ok r => rest.boundAfter (withSlots bound (commonSlots l r))
    | .error key, _ => .error key
    | .ok _, .error key => .error key
  | repeated body rest, bound =>
    match body.boundAfter bound with
    | .ok _ => rest.boundAfter bound
    | .error key => .error key

end MutantSieve
