import MutantSieve.Proofs.Pattern.Composition
import MutantSieve.Proofs.Pattern.Isolation
import MutantSieve.Proofs.Pattern.SlotUsage

namespace MutantSieve.Predicate

variable {p q r : Predicate} {token : Token} {c d : Context}

/-- A conjunction accepts if its second side accepts what the first one leaves, and it leaves what
the second one does. -/
theorem test_and_eq_true_iff : (and p q).test token c = (true, d) ↔
    ∃ between, p.test token c = (true, between) ∧ q.test token between = (true, d) := by
  rw [test]
  obtain ⟨left, between⟩ := p.test token c
  cases left with
  | false => simp
  | true =>
    rcases tested : q.test token between with ⟨right, after⟩
    -- What a rejecting conjunction leaves is of no interest here.
    cases right <;> simp [tested]

theorem test_and_assoc : ((p.and q).and r).test token c = (true, d) ↔
    (p.and (q.and r)).test token c = (true, d) := by
  simp only [test_and_eq_true_iff]
  constructor
  · rintro ⟨afterSecond, ⟨afterFirst, first, second⟩, third⟩
    exact ⟨afterFirst, first, afterSecond, second, third⟩
  · rintro ⟨afterFirst, first, afterSecond, second, third⟩
    exact ⟨afterSecond, ⟨afterFirst, first, second⟩, third⟩

theorem test_or_assoc : ((p.or q).or r).test token c = (p.or (q.or r)).test token c := by
  simp only [test]
  by_cases first : (p.test token c).1 = true
  · simp only [first, if_true]
  · simp only [first, if_false, Bool.false_eq_true]

/-- The slots of the leaves that read. -/
def sources : Predicate → List SlotKey
  | plain _ | captureVariable _ | captureToken _ => []
  | sameVariable slot => [slot.key]
  | sameToken slot => [slot.key]
  | and p q => p.sources ++ q.sources
  | or p q => p.sources ++ q.sources
  | negate p => p.sources

theorem reads_subset_sources (p : Predicate) : p.reads ⊆ p.sources := by
  induction p with
  | plain | captureVariable | sameVariable | captureToken | sameToken => exact List.Subset.refl _
  | and p q ihp ihq =>
    intro key member
    rcases mem_withSlots.mp member with inLeft | inRight
    · exact List.mem_append_left _ (ihp inLeft)
    · exact List.mem_append_right _ (ihq (List.mem_filter.mp inRight).1)
  | or p q ihp ihq =>
    intro key member
    rcases mem_withSlots.mp member with inLeft | inRight
    · exact List.mem_append_left _ (ihp inLeft)
    · exact List.mem_append_right _ (ihq inRight)
  | negate p ih => exact ih

/-- No leaf of either predicate reads a slot that a leaf of the other captures into. -/
structure Apart (p q : Predicate) : Prop where
  left : ∀ key ∈ p.targets, key ∉ q.sources
  right : ∀ key ∈ q.targets, key ∉ p.sources

theorem Apart.symm (apart : p.Apart q) : q.Apart p := ⟨apart.right, apart.left⟩

theorem Apart.negate (apart : p.Apart q) : p.negate.Apart q.negate := ⟨apart.left, apart.right⟩

/-- Whatever the test of one predicate leaves behind, it does not read a slot of the other's. -/
theorem accepts_after (apart : ∀ key ∈ p.targets, key ∉ q.sources) :
    (q.test token (p.test token c).2).1 = (q.test token c).1 := by
  have agree : Context.AgreeOn q.reads (p.test token c).2 c := fun key read =>
    get?_test fun target => apart key target (reads_subset_sources q read)
  exact (sameTest token agree).1

theorem Apart.accepts_and (apart : p.Apart q) :
    ((and p q).test token c).1 = ((p.test token c).1 && (q.test token c).1) := by
  rw [test_and, accepts_after apart.left]

theorem Apart.accepts_or (apart : p.Apart q) :
    ((or p q).test token c).1 = ((p.test token c).1 || (q.test token c).1) := by
  rw [test_or, accepts_after apart.left]

/-- Regrouped conjunctions accept the same tokens and leave the same context when they accept, and
regrouped alternatives are the same test. If neither of two predicates reads what the other
captures, their order does not matter for the answer, and a negation passes through both. -/
theorem test_laws (p q r : Predicate) (token : Token) (c : Context) :
    (∀ d, ((p.and q).and r).test token c = (true, d) ↔
      (p.and (q.and r)).test token c = (true, d)) ∧
    ((p.or q).or r).test token c = (p.or (q.or r)).test token c ∧
    (p.Apart q →
      ((p.and q).test token c).1 = ((q.and p).test token c).1 ∧
      ((p.or q).test token c).1 = ((q.or p).test token c).1 ∧
      ((p.and q).negate.test token c).1 = ((p.negate.or q.negate).test token c).1 ∧
      ((p.or q).negate.test token c).1 = ((p.negate.and q.negate).test token c).1) := by
  refine ⟨fun d => test_and_assoc, test_or_assoc, fun apart => ⟨?_, ?_, ?_, ?_⟩⟩
  · rw [apart.accepts_and, apart.symm.accepts_and, Bool.and_comm]
  · rw [apart.accepts_or, apart.symm.accepts_or, Bool.or_comm]
  · rw [test_negate, apart.accepts_and, apart.negate.accepts_or, test_negate, test_negate,
      Bool.not_and]
  · rw [test_negate, apart.accepts_or, apart.negate.accepts_and, test_negate, test_negate,
      Bool.not_or]

/-- A capture that stays behind although the token is rejected. -/
def leakingCapture : Predicate := eitherCapture.and (plain .never)

theorem test_laws_leakingCapture :
    let reader := (sameVariable ⟨2, "seen"⟩).negate
    (leakingCapture.test nopToken .empty).2 ≠ .empty ∧
      ((leakingCapture.or reader).test nopToken .empty).1 =
        ((reader.or leakingCapture).test nopToken .empty).1 ∧
      ((leakingCapture.and reader).negate.test nopToken .empty).1 =
        ((leakingCapture.negate.or reader.negate).test nopToken .empty).1 := by
  intro reader
  have apart : leakingCapture.Apart reader := ⟨by decide, by decide⟩
  obtain ⟨-, -, laws⟩ := test_laws leakingCapture reader any nopToken .empty
  obtain ⟨-, swapped, negated, -⟩ := laws apart
  refine ⟨fun same => ?_, swapped, negated⟩
  have bound := congrArg (·.isBound tokenSlot.key) same
  cases bound

end MutantSieve.Predicate
