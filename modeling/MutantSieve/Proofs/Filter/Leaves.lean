import MutantSieve.Filter.Basic

namespace MutantSieve.Filter

mutual

/-- The rules of a filter from left to right, each with the unit it is working on. -/
def leaves : Filter → List (Rule × Option ActiveUnit)
  | rule r unit => [(r, unit)]
  | compound _ children => leavesOf children

/-- The rules of several filters from left to right, each with the unit it is working on. -/
def leavesOf : List Filter → List (Rule × Option ActiveUnit)
  | [] => []
  | f :: rest => f.leaves ++ leavesOf rest

end

/-- The rules of a filter from left to right. -/
def rules (f : Filter) : List Rule := f.leaves.map (·.1)

/-- What one leaf makes of a batch. -/
def siftLeaf (batch : List Mutation) (leaf : Rule × Option ActiveUnit) :
    Except FilterError (List Mutation) :=
  ((rule leaf.1 leaf.2).sift batch).result

theorem compound_result (kind : FilterKind) (children : List Filter) (batch : List Mutation) :
    ((compound kind children).sift batch).result = (siftAll children batch).result := by
  rw [sift]
  cases sifted : (siftAll children batch).result with
  | error e => exact sifted
  | ok kept =>
    dsimp only
    split
    · exact sifted
    · rfl

theorem siftAll_cons_result (f : Filter) (rest : List Filter) (batch : List Mutation) :
    (siftAll (f :: rest) batch).result =
      (f.sift batch).result >>= fun kept => (siftAll rest kept).result := by
  rw [siftAll]
  cases first : (f.sift batch).result with
  | error e => exact first
  | ok kept => rfl

mutual

/-- A filter sifts a batch as its leaves do one after another. -/
theorem sift_result : (f : Filter) → (batch : List Mutation) →
    (f.sift batch).result = f.leaves.foldlM siftLeaf batch
  | rule r unit, batch => by
    rw [leaves, List.foldlM_cons]
    exact (bind_pure _).symm
  | compound kind children, batch => by
    rw [compound_result, leaves, siftAll_result children batch]

theorem siftAll_result : (children : List Filter) → (batch : List Mutation) →
    (siftAll children batch).result = (leavesOf children).foldlM siftLeaf batch
  | [], _ => rfl
  | f :: rest, batch => by
    rw [siftAll_cons_result, leavesOf, List.foldlM_append, sift_result f batch]
    exact congrArg _ (funext fun kept => siftAll_result rest kept)

end

mutual

theorem leaves_setUnit (unit : Option ActiveUnit) : (f : Filter) →
    (f.setUnit unit).leaves = f.leaves.map fun leaf => (leaf.1, unit)
  | rule _ _ => rfl
  | compound _ children => leavesOf_setUnits unit children

theorem leavesOf_setUnits (unit : Option ActiveUnit) : (children : List Filter) →
    leavesOf (setUnits unit children) = (leavesOf children).map fun leaf => (leaf.1, unit)
  | [] => rfl
  | f :: rest => by
    rw [setUnits, leavesOf, leavesOf, List.map_append, leaves_setUnit unit f,
      leavesOf_setUnits unit rest]

end

theorem leaves_setUnit_eq (unit : Option ActiveUnit) (f : Filter) :
    (f.setUnit unit).leaves = f.rules.map fun r => (r, unit) := by
  rw [leaves_setUnit, rules, List.map_map]
  rfl

end MutantSieve.Filter
