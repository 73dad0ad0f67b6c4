import MutantSieve.Rule.ReturnValue

namespace MutantSieve

/-- What a filter says it does to mutations. -/
inductive FilterKind where
  | other | modify | filter | report
deriving DecidableEq

/-- Why a batch is not sifted. -/
inductive FilterError where
  /-- An owned mutation is at a location without a method in the unit. -/
  | methodNotFound (unit : String) (location : Location)
  /-- No unit has begun. -/
  | noActiveUnit
deriving DecidableEq

/-- The text of an error. -/
def FilterError.message : FilterError → String
  | methodNotFound unit location => "Method not found in " ++ unit ++ ": " ++ location.text
  | noActiveUnit => "Interceptor used outside of begin/end"

/-- What happens on the way and is worth a log entry. -/
inductive Event where
  | removed (rule : String) (mutation : Mutation)
  | reduced (count total : Nat)
  | disabled (feature : String)
deriving DecidableEq

/-- The text of a log entry. -/
def Event.message : Event → String
  | removed rule mutation => rule ++ ": filtered equivalent mutant " ++ mutation.text
  | reduced count total => toString count ++ " of " ++ toString total ++ " mutations removed"
  | disabled feature => "feature " ++ feature ++ " disabled"

/-- The unit that a filter is working on, with its methods looked up once. -/
structure ActiveUnit where
  name : String
  methods : MethodTable

/-- A unit made ready for lookups. -/
def CompiledUnit.activate (unit : CompiledUnit) : ActiveUnit := ⟨unit.name, .ofUnit unit⟩

/-- The method at a location. -/
def ActiveUnit.resolve (unit : ActiveUnit) (location : Location) : Except FilterError Method :=
  match unit.methods.get? location with
  | some method => .ok method
  | none => .error (.methodNotFound unit.name location)

/-- What comes of sifting a batch: the mutations kept or an error, and the events until then. -/
structure Sifting where
  events : List Event
  result : Except FilterError (List Mutation)

/-- Puts the owned mutations of a batch to the rule, in order, and stops at the first of them whose
method is not found. -/
def Rule.sift (rule : Rule) (unit : ActiveUnit) :
    List Mutation → Array Mutation → Array Event → Sifting
  | [], kept, events => ⟨events.toList, .ok kept.toList⟩
  | m :: rest, kept, events =>
    if rule.owned.contains m.mutator then
      match unit.resolve m.location with
      | .error e => ⟨events.toList, .error e⟩
      | .ok method =>
        if rule.isEquivalent m method then
          rule.sift unit rest kept (events.push (.removed rule.name m))
        else rule.sift unit rest (kept.push m) events
    else rule.sift unit rest (kept.push m) events

/-- A rule, or several filters in sequence, which removes equivalent mutants from batches. Each rule
carries the unit it is working on. What is kept stays in order. -/
inductive Filter where
  | rule (rule : Rule) (unit : Option ActiveUnit)
  | compound (kind : FilterKind) (children : List Filter)

namespace Filter

/-- The filter of a rule, before any unit has begun. -/
def ofRule (rule : Rule) : Filter := .rule rule none

/-- What the filter says it does. -/
def kind : Filter → FilterKind
  | rule _ _ => .filter
  | compound kind _ => kind

/-- The filters that a compound runs. -/
def children : Filter → List Filter
  | rule _ _ => []
  | compound _ children => children

mutual

/-- Hands a unit to every rule, or takes it away. -/
def setUnit (unit : Option ActiveUnit) : Filter → Filter
  | rule r _ => rule r unit
  | compound kind children => compound kind (setUnits unit children)

/-- Hands a unit to every rule of several filters. -/
def setUnits (unit : Option ActiveUnit) : List Filter → List Filter
  | [] => []
  | f :: rest => f.setUnit unit :: setUnits unit rest

end

/-- Starts on a unit. -/
def begin (f : Filter) (unit : CompiledUnit) : Filter := f.setUnit (some unit.activate)

/-- Ends the work on a unit. -/
def finish (f : Filter) : Filter := f.setUnit none

mutual

/-- Sifts a batch. An empty one needs no unit. -/
def sift : Filter → List Mutation → Sifting
  | rule r unit, batch =>
    if batch.isEmpty then ⟨[], .ok batch⟩
    else
      match unit with
      | none => ⟨[], .error .noActiveUnit⟩
      | some unit => r.sift unit batch #[] #[]
  | compound _ children, batch =>
    let sifted := siftAll children batch
    match sifted.result with
    | .error _ => sifted
    | .ok kept =>
      if kept.length = batch.length then sifted
      else
        ⟨sifted.events ++ [.reduced (batch.length - kept.length) batch.length], .ok kept⟩

/-- Sifts a batch by several filters, each working on what the one before it keeps. -/
def siftAll : List Filter → List Mutation → Sifting
  | [], batch => ⟨[], .ok batch⟩
  | f :: rest, batch =>
    let first := f.sift batch
    match first.result with
    | .error _ => first
    | .ok kept =>
      let later := siftAll rest kept
      ⟨first.events ++ later.events, later.result⟩

end

end Filter

end MutantSieve
