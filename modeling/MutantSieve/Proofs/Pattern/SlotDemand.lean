import MutantSieve.Proofs.Pattern.SlotUsage
import Mathlib.Data.Finset.SDiff
import Mathlib.Data.Finset.Lattice.Lemmas

namespace MutantSieve

theorem toFinset_subset_of_subset {first second : List SlotKey} (within : first ⊆ second) :
    first.toFinset ⊆ second.toFinset :=
  fun _ member => List.mem_toFinset.mpr (within (List.mem_toFinset.mp member))

theorem toFinset_withSlots (first second : List SlotKey) :
    (withSlots first second).toFinset = first.toFinset ∪ second.toFinset := by
  ext key
  simp

theorem toFinset_commonSlots (first second : List SlotKey) :
    (commonSlots first second).toFinset = first.toFinset ∩ second.toFinset := by
  ext key
  simp

namespace Query

/-- The slots that every way through a query binds. -/
def provided : Query → Finset SlotKey
  | done => ∅
  | accept p rest => p.writes.toFinset ∪ rest.provided
  | reject _ rest => rest.provided
  | either left right rest => left.provided ∩ right.provided ∪ rest.provided
  | repeated _ rest => rest.provided

/-- The slots that some way through a query reads without having bound them for sure. -/
def demanded : Query → Finset SlotKey
  | done => ∅
  | accept p rest => p.reads.toFinset ∪ rest.demanded \ p.writes.toFinset
  | reject p rest => p.reads.toFinset ∪ rest.demanded
  | either left right rest =>
    left.demanded ∪ right.demanded ∪ rest.demanded \ (left.provided ∩ right.provided)
  | repeated body rest => body.demanded ∪ rest.demanded

variable {q r : Query} {bound after : List SlotKey} {key : SlotKey}

/-- A query that passes the check finds the slots that it demands bound, and binds those that it
provides. -/
theorem boundAfter_ok (checked : q.boundAfter bound = .ok after) :
    q.demanded ⊆ bound.toFinset ∧ after.toFinset = bound.toFinset ∪ q.provided := by
  induction q generalizing bound after with
  | done =>
    obtain rfl := Except.ok.inj checked
    simp [demanded, provided]
  | accept p rest ih =>
    obtain ⟨reads, checked⟩ := boundAfter_accept checked
    obtain ⟨passes, result⟩ := ih checked
    rw [toFinset_withSlots] at passes result
    refine ⟨Finset.union_subset ?_ (sdiff_le_iff'.mpr passes), ?_⟩
    · exact toFinset_subset_of_subset reads
    · rw [result, provided, Finset.union_assoc]
  | reject p rest ih =>
    obtain ⟨reads, checked⟩ := boundAfter_reject checked
    obtain ⟨passes, result⟩ := ih checked
    exact ⟨Finset.union_subset (toFinset_subset_of_subset reads) passes, result⟩
  | either left right rest ihLeft ihRight ih =>
    obtain ⟨l, r, onLeft, onRight, checked⟩ := boundAfter_either checked
    obtain ⟨passesLeft, resultLeft⟩ := ihLeft onLeft
    obtain ⟨passesRight, resultRight⟩ := ihRight onRight
    obtain ⟨passes, result⟩ := ih checked
    rw [toFinset_withSlots, toFinset_commonSlots, resultLeft, resultRight,
      ← Finset.union_inter_distrib_left, ← Finset.union_assoc, Finset.union_self] at passes result
    refine ⟨Finset.union_subset (Finset.union_subset passesLeft passesRight)
      (sdiff_le_iff'.mpr passes), ?_⟩
    rw [result, provided, Finset.union_assoc]
  | repeated body rest ihBody ih =>
    obtain ⟨⟨l, inBody⟩, checked⟩ := boundAfter_repeated checked
    obtain ⟨passes, result⟩ := ih checked
    exact ⟨Finset.union_subset (ihBody inBody).1 passes, result⟩

/-- The check names a slot that the query demands and that is not bound. -/
theorem boundAfter_error (checked : q.boundAfter bound = .error key) :
    key ∈ q.demanded ∧ key ∉ bound := by
  induction q generalizing bound with
  | done => cases checked
  | accept p rest ih =>
    rw [boundAfter] at checked
    split at checked
    · next found =>
      obtain rfl := Except.error.inj checked
      have unbound := List.find?_some found
      exact ⟨by simp [demanded, List.mem_of_find?_eq_some found], by simpa using unbound⟩
    · have later := ih checked
      rw [mem_withSlots, not_or] at later
      exact ⟨by simp [demanded, later], later.2.1⟩
  | reject p rest ih =>
    rw [boundAfter] at checked
    split at checked
    · next found =>
      obtain rfl := Except.error.inj checked
      have unbound := List.find?_some found
      exact ⟨by simp [demanded, List.mem_of_find?_eq_some found], by simpa using unbound⟩
    · have later := ih checked
      exact ⟨by simp [demanded, later], later.2⟩
  | either left right rest ihLeft ihRight ih =>
    rw [boundAfter] at checked
    split at checked
    · next l r onLeft onRight =>
      obtain ⟨demands, unbound⟩ := ih checked
      rw [← List.mem_toFinset, toFinset_withSlots, toFinset_commonSlots, (boundAfter_ok onLeft).2,
        (boundAfter_ok onRight).2, ← Finset.union_inter_distrib_left, ← Finset.union_assoc,
        Finset.union_self, Finset.mem_union, not_or, List.mem_toFinset] at unbound
      exact ⟨by simp [demanded, demands, unbound.2], unbound.1⟩
    · next failed =>
      obtain rfl := Except.error.inj checked
      exact ⟨by simp [demanded, ihLeft failed], (ihLeft failed).2⟩
    · next failed =>
      obtain rfl := Except.error.inj checked
      exact ⟨by simp [demanded, ihRight failed], (ihRight failed).2⟩
  | repeated body rest ihBody ih =>
    rw [boundAfter] at checked
    split at checked
    · have later := ih checked
      exact ⟨by simp [demanded, later], later.2⟩
    · next failed =>
      obtain rfl := Except.error.inj checked
      exact ⟨by simp [demanded, ihBody failed], (ihBody failed).2⟩

/-- A query passes the check if and only if the slots that it demands are bound. -/
theorem boundAfter_isOk_iff :
    (∃ after, q.boundAfter bound = .ok after) ↔ q.demanded ⊆ bound.toFinset := by
  refine ⟨fun ⟨after, checked⟩ => (boundAfter_ok checked).1, fun within => ?_⟩
  cases checked : q.boundAfter bound with
  | ok after => exact ⟨after, rfl⟩
  | error key =>
    obtain ⟨demands, unbound⟩ := boundAfter_error checked
    exact absurd (List.mem_toFinset.mp (within demands)) unbound

theorem provided_append : (q ++ r).provided = q.provided ∪ r.provided := by
  induction q with
  | done => exact (Finset.empty_union _).symm
  | accept p rest ih =>
    change p.writes.toFinset ∪ (rest ++ r).provided = _
    rw [ih, provided, Finset.union_assoc]
  | reject p rest ih => exact ih
  | either left right rest _ _ ih =>
    change left.provided ∩ right.provided ∪ (rest ++ r).provided = _
    rw [ih, provided, Finset.union_assoc]
  | repeated body rest _ ih => exact ih

theorem demanded_sdiff (a b given bound : Finset SlotKey) :
    (a ∪ b \ given) \ bound = a \ bound ∪ b \ (bound ∪ given) := by
  rw [Finset.union_sdiff_distrib, sdiff_sdiff, Finset.sup_eq_union, Finset.union_comm given]

theorem demanded_append : (q ++ r).demanded = q.demanded ∪ r.demanded \ q.provided := by
  induction q with
  | done =>
    change r.demanded = ∅ ∪ r.demanded \ ∅
    rw [Finset.sdiff_empty, Finset.empty_union]
  | accept p rest ih =>
    change p.reads.toFinset ∪ (rest ++ r).demanded \ p.writes.toFinset = _
    rw [ih, demanded_sdiff, demanded, provided, Finset.union_assoc]
  | reject p rest ih =>
    change p.reads.toFinset ∪ (rest ++ r).demanded = _
    rw [ih, demanded, provided, Finset.union_assoc]
  | either left right rest _ _ ih =>
    change left.demanded ∪ right.demanded ∪
      (rest ++ r).demanded \ (left.provided ∩ right.provided) = _
    rw [ih, demanded_sdiff, demanded, provided, ← Finset.union_assoc]
  | repeated body rest _ ih =>
    change body.demanded ∪ (rest ++ r).demanded = _
    rw [ih, demanded, provided, Finset.union_assoc]

theorem provided_orElse : (q.orElse r).provided = q.provided ∩ r.provided :=
  Finset.union_empty _

theorem demanded_orElse : (q.orElse r).demanded = q.demanded ∪ r.demanded := by
  rw [orElse, demanded, demanded, Finset.empty_sdiff, Finset.union_empty]

theorem provided_zeroOrMore : (zeroOrMore q).provided = ∅ := rfl

theorem demanded_zeroOrMore : (zeroOrMore q).demanded = q.demanded :=
  Finset.union_empty _

variable {ignores : Option Predicate}

/-- A query compiles if and only if its predicate for ignored instructions is allowed and the slots
that it demands are bound beforehand. -/
theorem compile_isOk_iff : (∃ m, q.compile ignores bound = .ok m) ↔
    ignores.bind Predicate.ignoreError? = none ∧ q.demanded ⊆ bound.toFinset := by
  rw [← boundAfter_isOk_iff, compile]
  cases ignores.bind Predicate.ignoreError? with
  | some e => simp
  | none => cases q.boundAfter bound <;> simp

end Query

end MutantSieve
