import MutantSieve.Filter.ReturnEquivalence
import MutantSieve.Proofs.Filter.Leaves
import Mathlib.Data.List.Induction

namespace MutantSieve.Filter

/-- One call of a filter. -/
inductive Call where
  | begin (unit : CompiledUnit)
  | intercept (batch : List Mutation)
  | finish

/-- The filter after a call, and what comes of the batch if there is one. -/
def call (f : Filter) : Call → Filter × Option Sifting
  | .begin unit => (f.begin unit, none)
  | .intercept batch => (f, some (f.sift batch))
  | .finish => (f.finish, none)

/-- The answers to calls in sequence, one for each. -/
def session : Filter → List Call → List (Option Sifting)
  | _, [] => []
  | f, c :: rest => (f.call c).2 :: (f.call c).1.session rest

/-- The filter after calls in sequence. -/
def after (f : Filter) (calls : List Call) : Filter := calls.foldl (fun f c => (f.call c).1) f

/-- No rule of the filter has a unit, as when it has just been built. -/
def IsNew (f : Filter) : Prop := ∀ leaf ∈ f.leaves, leaf.2 = none

/-- The unit that a call hands over, or that it takes the unit away. -/
def Call.handsOver? : Call → Option (Option CompiledUnit)
  | begin unit => some (some unit)
  | intercept _ => none
  | finish => some none

/-- The unit of the last begin, unless an end follows it. -/
def lastBegun (calls : List Call) : Option CompiledUnit :=
  (calls.reverse.findSome? Call.handsOver?).join

mutual

theorem setUnit_setUnit (unit unit' : Option ActiveUnit) : (f : Filter) →
    (f.setUnit unit).setUnit unit' = f.setUnit unit'
  | rule _ _ => rfl
  | compound kind children => congrArg (compound kind) (setUnits_setUnits unit unit' children)

theorem setUnits_setUnits (unit unit' : Option ActiveUnit) : (children : List Filter) →
    setUnits unit' (setUnits unit children) = setUnits unit' children
  | [] => rfl
  | f :: rest => by
    rw [setUnits, setUnits, setUnits, setUnit_setUnit unit unit' f,
      setUnits_setUnits unit unit' rest]

end

mutual

theorem setUnit_eq_self {unit : Option ActiveUnit} : (f : Filter) →
    (∀ leaf ∈ f.leaves, leaf.2 = unit) → f.setUnit unit = f
  | rule r _, holds => congrArg (rule r) (holds _ (List.mem_singleton_self _)).symm
  | compound kind children, holds => congrArg (compound kind) (setUnits_eq_self children holds)

theorem setUnits_eq_self {unit : Option ActiveUnit} : (children : List Filter) →
    (∀ leaf ∈ leavesOf children, leaf.2 = unit) → setUnits unit children = children
  | [], _ => rfl
  | f :: rest, holds => by
    have first := setUnit_eq_self f fun leaf member => holds leaf (List.mem_append_left _ member)
    have others := setUnits_eq_self rest fun leaf member =>
      holds leaf (List.mem_append_right _ member)
    rw [setUnits, first, others]

end

variable {f : Filter} {calls : List Call} {n : Nat} {batch : List Mutation}

/-- The last call that hands a unit over or takes it away settles what every leaf holds. -/
theorem after_eq (f : Filter) (calls : List Call) :
    f.after calls = (calls.reverse.findSome? Call.handsOver?).elim f fun unit =>
      f.setUnit (unit.map CompiledUnit.activate) := by
  induction calls using List.reverseRecOn with
  | nil => rfl
  | append_singleton calls c ih =>
    have overwritten (unit : Option ActiveUnit) :
        (f.after calls).setUnit unit = f.setUnit unit := by
      rw [ih]
      cases calls.reverse.findSome? Call.handsOver? with
      | none => rfl
      | some old => exact setUnit_setUnit _ _ f
    rw [after, List.foldl_append, List.reverse_append]
    cases c with
    | begin unit => exact overwritten (some unit.activate)
    | intercept batch => exact ih
    | finish => exact overwritten none

theorem IsNew.after (isNew : f.IsNew) (calls : List Call) :
    f.after calls = (lastBegun calls).elim f f.begin := by
  rw [after_eq, lastBegun]
  match calls.reverse.findSome? Call.handsOver? with
  | none => rfl
  | some none => exact setUnit_eq_self f isNew
  | some (some unit) => rfl

theorem session_getElem? (f : Filter) (calls : List Call) (n : Nat) :
    (f.session calls)[n]? = calls[n]?.map fun c => ((f.after (calls.take n)).call c).2 := by
  induction calls generalizing f n with
  | nil => rfl
  | cons c rest ih =>
    cases n with
    | zero => rfl
    | succ n => exact ih (f.call c).1 n

/-- A call with a batch, successful or not, leaves no trace in the answers to other calls. -/
theorem session_eraseIdx (f : Filter) (here : calls[n]? = some (.intercept batch)) :
    f.session (calls.eraseIdx n) = (f.session calls).eraseIdx n := by
  induction calls generalizing f n with
  | nil => cases here
  | cons c rest ih =>
    cases n with
    | zero =>
      obtain rfl := Option.some.inj here
      rfl
    | succ n => exact congrArg _ (ih (f.call c).1 here)

/-- Whatever has been called before, a filter answers as a new one does on which nothing but the
last begin has been called, or nothing at all if an end follows that begin. Without that call, all
other answers are the same. -/
theorem session_memoryless (isNew : f.IsNew) (here : calls[n]? = some (.intercept batch)) :
    (f.session calls)[n]? =
        some (some (((lastBegun (calls.take n)).elim f f.begin).sift batch)) ∧
      f.session (calls.eraseIdx n) = (f.session calls).eraseIdx n := by
  refine ⟨?_, session_eraseIdx f here⟩
  rw [session_getElem?, here, isNew.after]
  rfl

/-- A class with one method, which returns null. -/
def nullReturner (name : String) : CompiledUnit :=
  ⟨name, [⟨⟨name, "m", "()Ljava/lang/Object;"⟩, #[.simple .aconstNull, .simple .areturn]⟩]⟩

/-- The mutant of such a class that returns null. -/
def returnMutant (name : String) : Mutation :=
  ⟨"NULL_RETURNS", 1, ⟨name, "m", "()Ljava/lang/Object;"⟩, none, none⟩

/-- Two classes in turn without an end between them. Until the second one has begun, its mutant
makes the batch fail. -/
def twoClasses : List Call :=
  [.intercept [returnMutant "c/D"], .begin (nullReturner "a/B"), .begin (nullReturner "a/B"),
    .intercept [returnMutant "a/B", returnMutant "c/D"], .begin (nullReturner "c/D"),
    .intercept [returnMutant "c/D"], .finish]

theorem session_memoryless_twoClasses :
    (ReturnEquivalence.filter {}).IsNew ∧
      twoClasses[5]? = some (.intercept [returnMutant "c/D"]) ∧
      ((ReturnEquivalence.filter {}).session twoClasses)[5]? =
        some (some (((ReturnEquivalence.filter {}).begin (nullReturner "c/D")).sift
          [returnMutant "c/D"])) := by
  have isNew : (ReturnEquivalence.filter {}).IsNew := by
    intro leaf member
    simp only [ReturnEquivalence.filter, ReturnEquivalence.rules, List.map_cons, List.map_nil,
      leaves, leavesOf, ofRule, List.mem_append, List.mem_singleton, List.not_mem_nil,
      or_false] at member
    rcases member with rfl | rfl | rfl | rfl <;> rfl
  exact ⟨isNew, rfl, (session_memoryless (n := 5) isNew rfl).1⟩

end MutantSieve.Filter
