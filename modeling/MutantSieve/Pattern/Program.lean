import MutantSieve.Pattern.Query

namespace MutantSieve

/-- One step of a program. -/
inductive Step where
  /-- Consumes one token that the predicate accepts and goes on to the next step. -/
  | test (p : Predicate)
  /-- Goes on at both positions, preferably at the first. -/
  | split (first second : Nat)
  | jump (target : Nat)
  /-- The end of the pattern. -/
  | accept
deriving DecidableEq

/-- The steps by position. -/
abbrev Program := Array Step

namespace Query

/-- How many steps a query takes. -/
def steps : Query → Nat
  | done => 0
  | accept _ rest => rest.steps + 1
  | reject _ rest => rest.steps + 1
  | either left right rest => left.steps + right.steps + 2 + rest.steps
  | repeated body rest => body.steps + 2 + rest.steps

/-- The steps of a query when the first of them stands at position `start`. -/
def code : Query → (start : Nat) → List Step
  | done, _ => []
  | accept p rest, start => .test p :: rest.code (start + 1)
  | reject p rest, start => .test (.negate p) :: rest.code (start + 1)
  | either left right rest, start =>
    let second := start + left.steps + 2
    let next := second + right.steps
    .split (start + 1) second :: left.code (start + 1) ++
      .jump next :: right.code second ++ rest.code next
  | repeated body rest, start =>
    let next := start + body.steps + 2
    .split next (start + 1) :: body.code (start + 1) ++ .jump start :: rest.code next

theorem length_code (q : Query) (start : Nat) : (q.code start).length = q.steps := by
  induction q generalizing start with
  | done => rfl
  | accept p rest ih => simp [code, steps, ih]
  | reject p rest ih => simp [code, steps, ih]
  | either left right rest ihl ihr ih => simp [code, steps, ihl, ihr, ih]; omega
  | repeated body rest ihb ih => simp [code, steps, ihb, ih]; omega

/-- The program of a query. -/
def program (q : Query) : Program := (q.code 0 ++ [Step.accept]).toArray

end Query

end MutantSieve
