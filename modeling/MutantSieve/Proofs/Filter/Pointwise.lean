import MutantSieve.Proofs.Filter.Leaves
import Mathlib

namespace MutantSieve

namespace Rule

/-- The rule owns a mutation at whose location the unit has no method. -/
def misses (rule : Rule) (unit : CompiledUnit) (m : Mutation) : Bool :=
  rule.owned.contains m.mutator && (unit.methodAt? m.location).isNone

/-- The rule owns a mutation and judges it equivalent on the first method at its location. -/
def removes (rule : Rule) (unit : CompiledUnit) (m : Mutation) : Bool :=
  rule.owned.contains m.mutator && (unit.methodAt? m.location).any (rule.isEquivalent m)

theorem removes_of_misses {rule other : Rule} {unit : CompiledUnit} {m : Mutation}
    (misses : other.misses unit m = true) : rule.removes unit m = false := by
  simp only [Rule.misses, Bool.and_eq_true, Option.isNone_iff_eq_none] at misses
  simp [removes, misses.2]

theorem find?_misses_filter (rule other : Rule) (unit : CompiledUnit) (batch : List Mutation) :
    (batch.filter fun m => !rule.removes unit m).find? (other.misses unit) =
      batch.find? (other.misses unit) := by
  rw [List.find?_filter]
  congr 1
  funext m
  cases misses : other.misses unit m with
  | false => simp
  | true => simp [removes_of_misses misses]

theorem resolve_activate (unit : CompiledUnit) (location : Location) :
    unit.activate.resolve location = match unit.methodAt? location with
      | some method => .ok method
      | none => .error (.methodNotFound unit.name location) := by
  cases found : unit.methodAt? location <;>
    simp [ActiveUnit.resolve, CompiledUnit.activate, MethodTable.get?_ofUnit, found]

theorem sift_result (rule : Rule) (unit : CompiledUnit) (batch : List Mutation)
    (kept : Array Mutation) (events : Array Event) :
    (rule.sift unit.activate batch kept events).result =
      match batch.find? (rule.misses unit) with
      | some m => .error (.methodNotFound unit.name m.location)
      | none => .ok (kept.toList ++ batch.filter fun m => !rule.removes unit m) := by
  induction batch generalizing kept events with
  | nil => simp [sift]
  | cons m rest ih =>
    rw [sift]
    by_cases owned : rule.owned.contains m.mutator = true
    · rw [if_pos owned, resolve_activate]
      cases found : unit.methodAt? m.location with
      | none => simp [misses, owned, found]
      | some method =>
        have resolved : rule.misses unit m = false := by simp [misses, found]
        rw [List.find?_cons, resolved]
        by_cases equivalent : rule.isEquivalent m method = true
        · have removed : rule.removes unit m = true := by simp [removes, owned, found, equivalent]
          simp [equivalent, removed, ih]
        · have stays : rule.removes unit m = false := by simp [removes, found, equivalent]
          simp [equivalent, stays, ih]
    · have resolved : rule.misses unit m = false := by simp [misses, owned]
      have stays : rule.removes unit m = false := by simp [removes, owned]
      simp [owned, resolved, stays, ih]

end Rule

namespace CompiledUnit

/-- What rules make of a batch if each of them looks at all of it. They fail at a mutation without a
method, the first of the batch for the first rule that has such a mutation; else the mutations stay
that no rule removes. -/
def sieve (unit : CompiledUnit) (rules : List Rule) (batch : List Mutation) :
    Except FilterError (List Mutation) :=
  match rules.findSome? fun rule => batch.find? (rule.misses unit) with
  | some m => .error (.methodNotFound unit.name m.location)
  | none => .ok (batch.filter fun m => !rules.any (·.removes unit m))

theorem sieve_singleton (unit : CompiledUnit) (rule : Rule) (batch : List Mutation) :
    unit.sieve [rule] batch = match batch.find? (rule.misses unit) with
      | some m => .error (.methodNotFound unit.name m.location)
      | none => .ok (batch.filter fun m => !rule.removes unit m) := by
  rw [sieve, List.findSome?_cons]
  cases batch.find? (rule.misses unit) <;> simp

/-- What the first rule removes neither hides a mutation that a later rule fails at nor changes what
a later rule makes of the others. -/
theorem sieve_cons (unit : CompiledUnit) (rule : Rule) (rules : List Rule) (batch : List Mutation) :
    unit.sieve (rule :: rules) batch = unit.sieve [rule] batch >>= unit.sieve rules := by
  rw [sieve_singleton, sieve, List.findSome?_cons]
  cases batch.find? (rule.misses unit) with
  | some m => rfl
  | none =>
    change _ = unit.sieve rules (batch.filter fun m => !rule.removes unit m)
    simp only [sieve, Rule.find?_misses_filter, List.filter_filter, List.any_cons, Bool.not_or,
      Bool.and_comm]

theorem sieve_nil (unit : CompiledUnit) (batch : List Mutation) : unit.sieve [] batch = .ok batch :=
  congrArg Except.ok (List.filter_eq_self.mpr fun _ _ => rfl)

theorem siftLeaf_activate (unit : CompiledUnit) (rule : Rule) (batch : List Mutation) :
    Filter.siftLeaf batch (rule, some unit.activate) = unit.sieve [rule] batch := by
  rw [Filter.siftLeaf, Filter.sift, sieve_singleton]
  cases batch with
  | nil => rfl
  | cons m rest => simp [Rule.sift_result]

/-- Rules in sequence make of a batch what they make of it side by side. -/
theorem foldlM_siftLeaf (unit : CompiledUnit) (rules : List Rule) (batch : List Mutation) :
    (rules.map fun r => (r, some unit.activate)).foldlM Filter.siftLeaf batch =
      unit.sieve rules batch := by
  induction rules generalizing batch with
  | nil => exact (sieve_nil unit batch).symm
  | cons rule rules ih =>
    rw [List.map_cons, List.foldlM_cons, siftLeaf_activate, sieve_cons unit rule rules]
    exact congrArg _ (funext ih)

theorem sieve_perm (unit : CompiledUnit) {rules rules' : List Rule} (same : rules.Perm rules')
    (batch : List Mutation) :
    (unit.sieve rules batch).toOption = (unit.sieve rules' batch).toOption := by
  have failing : (rules.findSome? fun rule => batch.find? (rule.misses unit)) = none ↔
      (rules'.findSome? fun rule => batch.find? (rule.misses unit)) = none := by
    simp only [List.findSome?_eq_none_iff, same.mem_iff]
  have removed (m : Mutation) : rules.any (·.removes unit m) = rules'.any (·.removes unit m) :=
    same.any_eq
  simp only [sieve, removed]
  cases first : rules.findSome? fun rule => batch.find? (rule.misses unit) with
  | none => rw [failing.mp first]
  | some m =>
    obtain ⟨m', first'⟩ := Option.ne_none_iff_exists'.mp (mt failing.mpr (by simp [first]))
    rw [first']
    rfl

/-- What is not kept, some rule removes. -/
theorem exists_removes (unit : CompiledUnit) {rules : List Rule} {batch kept : List Mutation}
    {m : Mutation} (sifted : unit.sieve rules batch = .ok kept) (inBatch : m ∈ batch)
    (gone : m ∉ kept) : ∃ rule ∈ rules, rule.removes unit m = true := by
  rw [sieve] at sifted
  split at sifted
  · cases sifted
  · obtain rfl := Except.ok.inj sifted
    simpa [inBatch] using gone

end CompiledUnit

namespace Filter

theorem begin_result (f : Filter) (unit : CompiledUnit) (batch : List Mutation) :
    ((f.begin unit).sift batch).result = unit.sieve f.rules batch := by
  rw [sift_result, begin, leaves_setUnit_eq, unit.foldlM_siftLeaf]

/-- No leaf looks at an empty batch. -/
theorem sift_nil_result (f : Filter) : (f.sift []).result = .ok [] := by
  rw [sift_result]
  induction f.leaves with
  | nil => rfl
  | cons leaf leaves ih => exact ih

theorem finish_result (f : Filter) (batch : List Mutation) :
    (f.finish.sift batch).result =
      if batch = [] ∨ f.rules = [] then .ok batch else .error .noActiveUnit := by
  cases batch with
  | nil => simp [sift_nil_result]
  | cons m rest =>
    rw [sift_result, finish, leaves_setUnit_eq]
    cases f.rules with
    | nil => rfl
    | cons rule rules => rfl

/-- However it is nested, a filter that works on a unit makes of a batch what its rules make of it
side by side. Without a unit it fails, unless there is no mutation or no rule. Neither the nesting
nor the order of the rules has a say in whether it fails and in what it keeps. -/
theorem sift_pointwise (f : Filter) :
    (∀ unit batch, ((f.begin unit).sift batch).result = unit.sieve f.rules batch) ∧
      (∀ batch, (f.finish.sift batch).result =
        if batch = [] ∨ f.rules = [] then .ok batch else .error .noActiveUnit) ∧
      (f.sift []).result = .ok [] ∧
      ∀ g : Filter, f.rules.Perm g.rules → ∀ batch,
        (f.finish.sift batch).result = (g.finish.sift batch).result ∧
          ∀ unit, ((f.begin unit).sift batch).result.toOption =
            ((g.begin unit).sift batch).result.toOption := by
  refine ⟨f.begin_result, f.finish_result, f.sift_nil_result, fun g same batch => ⟨?_, ?_⟩⟩
  · have empty : f.rules = [] ↔ g.rules = [] := by
      rw [← List.length_eq_zero_iff, ← List.length_eq_zero_iff, same.length_eq]
    simp only [finish_result, empty]
  · intro unit
    rw [begin_result, begin_result, unit.sieve_perm same]

/-- A class with one method, which returns null. -/
def nullFactory : CompiledUnit :=
  ⟨"a/B", [⟨⟨"a/B", "m", "()La/B;"⟩, #[.simple .aconstNull, .simple .areturn]⟩]⟩

/-- The mutant that returns null from that method. -/
def nullMutant : Mutation := ⟨"NULL_RETURNS", 1, ⟨"a/B", "m", "()La/B;"⟩, none, none⟩

/-- The mutant that returns zero instead. -/
def zeroMutant : Mutation := { nullMutant with mutator := "PRIMITIVE_RETURNS" }

/-- A mutant of a method that the class does not have, by a mutator that no rule owns. -/
def callMutant : Mutation := ⟨"VOID_CALLS", 0, ⟨"a/B", "n", "()V"⟩, none, none⟩

/-- A rule for null and, one level down, a rule for zeros. -/
def nullBeforeZero : Filter :=
  .compound .filter [.ofRule (.nullReturns ({} : MutatorIds).nullSet),
    .compound .other [.ofRule (.primitiveZero ({} : MutatorIds).zeroSet)]]

/-- The same two rules in the other order, side by side with nothing. -/
def zeroBeforeNull : Filter :=
  .compound .other [.ofRule (.primitiveZero ({} : MutatorIds).zeroSet),
    .ofRule (.nullReturns ({} : MutatorIds).nullSet), .compound .other []]

theorem sift_pointwise_nullFactory :
    nullBeforeZero.rules.Perm zeroBeforeNull.rules ∧
      ((nullBeforeZero.begin nullFactory).sift
          [zeroMutant, nullMutant, callMutant]).result.toOption =
        ((zeroBeforeNull.begin nullFactory).sift
          [zeroMutant, nullMutant, callMutant]).result.toOption ∧
      ((zeroBeforeNull.begin nullFactory).sift [zeroMutant, nullMutant, callMutant]).result =
        .ok [zeroMutant, callMutant] := by
  have same : nullBeforeZero.rules.Perm zeroBeforeNull.rules := .swap _ _ []
  have outcomes := (sift_pointwise nullBeforeZero).2.2.2 zeroBeforeNull same
    [zeroMutant, nullMutant, callMutant]
  have kept : nullFactory.sieve zeroBeforeNull.rules [zeroMutant, nullMutant, callMutant] =
      .ok [zeroMutant, callMutant] := by cbv
  exact ⟨same, outcomes.2 nullFactory, (begin_result ..).trans kept⟩

end Filter

end MutantSieve
