import MutantSieve.Proofs.Filter.Pointwise

namespace MutantSieve

/-- The method of a unit at a location, by a search through the methods of the unit. -/
def CompiledUnit.search (unit : CompiledUnit) (location : Location) : Except FilterError Method :=
  match unit.methodAt? location with
  | some method => .ok method
  | none => .error (.methodNotFound unit.name location)

namespace Rule

/-- Whether a rule finds a mutation equivalent on the method that a lookup finds. Only for an owned
mutation is a method looked up. -/
def verdict (rule : Rule) (lookup : Location → Except FilterError Method) (m : Mutation) :
    Except FilterError Bool :=
  if rule.owned.contains m.mutator then (lookup m.location).map (rule.isEquivalent m) else .ok false

/-- Removes the mutations of a batch that a rule finds equivalent, and stops at the first for which
it finds no method. -/
def siftBy (rule : Rule) (lookup : Location → Except FilterError Method) : List Mutation → Sifting
  | [] => ⟨[], .ok []⟩
  | m :: rest =>
    let later := rule.siftBy lookup rest
    match rule.verdict lookup m with
    | .error e => ⟨[], .error e⟩
    | .ok true => ⟨.removed rule.name m :: later.events, later.result⟩
    | .ok false => ⟨later.events, later.result.map (m :: ·)⟩

theorem map_push (kept : Array Mutation) (m : Mutation)
    (result : Except FilterError (List Mutation)) :
    (result.map (m :: ·)).map (kept.toList ++ ·) = result.map ((kept.push m).toList ++ ·) := by
  cases result with
  | error e => rfl
  | ok later => simp [Except.map]

/-- What has been kept and noted before stays in front. -/
theorem sift_eq_siftBy (rule : Rule) (active : ActiveUnit) (batch : List Mutation)
    (kept : Array Mutation) (events : Array Event) :
    rule.sift active batch kept events =
      ⟨events.toList ++ (rule.siftBy active.resolve batch).events,
        (rule.siftBy active.resolve batch).result.map (kept.toList ++ ·)⟩ := by
  induction batch generalizing kept events with
  | nil => simp [sift, siftBy, Except.map]
  | cons m rest ih =>
    rw [sift, siftBy, verdict]
    by_cases owned : rule.owned.contains m.mutator = true
    · rw [if_pos owned, if_pos owned]
      cases active.resolve m.location with
      | error e => simp [Except.map]
      | ok method =>
        have judged : (Except.ok method : Except FilterError Method).map (rule.isEquivalent m) =
            .ok (rule.isEquivalent m method) := rfl
        rw [judged]
        dsimp only
        split
        · next equivalent => simp [equivalent, ih]
        · next different =>
          rw [ih, ← map_push]
          simp [different]
    · rw [if_neg owned, if_neg owned, ih, map_push]

end Rule

theorem Filter.rule_sift (rule : Rule) (active : ActiveUnit) (batch : List Mutation) :
    (Filter.rule rule (some active)).sift batch = rule.siftBy active.resolve batch := by
  cases batch with
  | nil => rfl
  | cons m rest =>
    have whole := rule.sift_eq_siftBy active (m :: rest) #[] #[]
    have same (s : Sifting) : (⟨[] ++ s.events, s.result.map ([] ++ ·)⟩ : Sifting) = s := by
      obtain ⟨events, result⟩ := s
      cases result <;> rfl
    exact whole.trans (same _)

namespace CompiledUnit

theorem activate_resolve (unit : CompiledUnit) : unit.activate.resolve = unit.search :=
  funext (Rule.resolve_activate unit)

theorem search_eq_ok_iff {unit : CompiledUnit} {location : Location} {method : Method} :
    unit.search location = .ok method ↔ unit.methodAt? location = some method := by
  rw [search]
  cases unit.methodAt? location <;> simp

theorem search_eq_error_iff {unit : CompiledUnit} {location : Location} {e : FilterError} :
    unit.search location = .error e ↔
      unit.methodAt? location = none ∧ e = .methodNotFound unit.name location := by
  rw [search]
  cases unit.methodAt? location <;> simp [eq_comm]

theorem methodAt?_eq_some_iff {unit : CompiledUnit} {location : Location} {method : Method} :
    unit.methodAt? location = some method ↔
      ∃ before after, unit.methods = before ++ method :: after ∧ method.location = location ∧
        ∀ earlier ∈ before, earlier.location ≠ location := by
  simp [methodAt?, List.find?_eq_some_iff_append, and_left_comm]

/-- The table made when a unit begins finds what a search finds, the first method declared at a
location, or fails with the names of the unit and the location. With it, a rule makes of a batch
what it makes of it with a search for every owned mutation. -/
theorem activate_searches (unit : CompiledUnit) :
    (∀ location method, unit.activate.resolve location = .ok method ↔
        unit.methodAt? location = some method) ∧
      (∀ location method, unit.methodAt? location = some method ↔
        ∃ before after, unit.methods = before ++ method :: after ∧ method.location = location ∧
          ∀ earlier ∈ before, earlier.location ≠ location) ∧
      (∀ location e, unit.activate.resolve location = .error e ↔
        unit.methodAt? location = none ∧ e = .methodNotFound unit.name location) ∧
      ∀ rule state batch, ((Filter.rule rule state).begin unit).sift batch =
        rule.siftBy unit.search batch := by
  rw [activate_resolve]
  refine ⟨fun _ _ => search_eq_ok_iff, fun _ _ => methodAt?_eq_some_iff,
    fun _ _ => search_eq_error_iff, fun rule state batch => ?_⟩
  rw [← activate_resolve]
  exact Filter.rule_sift rule unit.activate batch

/-- Of two methods declared at one location, the first is found. -/
example : (CompiledUnit.mk "a/B" [⟨⟨"a/B", "m", "()V"⟩, #[.simple .nop]⟩,
      ⟨⟨"a/B", "m", "()V"⟩, #[]⟩]).activate.resolve ⟨"a/B", "m", "()V"⟩ =
    .ok ⟨⟨"a/B", "m", "()V"⟩, #[.simple .nop]⟩ := by
  rfl

end CompiledUnit

end MutantSieve
