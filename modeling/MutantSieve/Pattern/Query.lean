import MutantSieve.Pattern.Predicate

namespace MutantSieve

/-- A list of clauses. -/
inductive Query where
  | done
  /-- One instruction that a predicate accepts. -/
  | accept (p : Predicate) (rest : Query)
  /-- One instruction that a predicate rejects. -/
  | reject (p : Predicate) (rest : Query)
  /-- What either side consumes, the left one tried first. -/
  | either (left right rest : Query)
  /-- What the body consumes in any number of rounds, as few as possible. -/
  | repeated (body rest : Query)
deriving DecidableEq

namespace Query

/-- The clauses of one query, then those of another. -/
def append : Query → Query → Query
  | done, next => next
  | accept p rest, next => accept p (rest.append next)
  | reject p rest, next => reject p (rest.append next)
  | either left right rest, next => either left right (rest.append next)
  | repeated body rest, next => repeated body (rest.append next)

instance : Append Query := ⟨append⟩

/-- No clause is left. -/
def isEmpty : Query → Bool
  | done => true
  | _ => false

/-- One instruction that the predicate accepts. -/
def matching (p : Predicate) : Query := accept p done

/-- One instruction that the predicate rejects. -/
def rejecting (p : Predicate) : Query := reject p done

/-- What either query consumes. -/
def orElse (q r : Query) : Query := either q r done

/-- The rounds of a query, any number of them. -/
def zeroOrMore (body : Query) : Query := repeated body done

/-- The rounds of a query, at least one. -/
def oneOrMore (body : Query) : Query := body ++ zeroOrMore body

end Query

end MutantSieve
