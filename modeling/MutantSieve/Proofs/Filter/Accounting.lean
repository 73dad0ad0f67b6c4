import MutantSieve.Proofs.Filter.Lookup
import MutantSieve.Proofs.Text.Message

namespace MutantSieve

/-- The rule and the mutation of an entry for a removal. -/
def Event.removal? : Event → Option (String × Mutation)
  | removed rule m => some (rule, m)
  | _ => none

/-- Whether a message tells of a filtered mutant. -/
def tellsOfMutant (message : String) : Bool :=
  ": filtered equivalent mutant ".toList <:+: message.toList

namespace Sifting

/-- The removals that are noted, each with the name of its rule. -/
def removals (s : Sifting) : List (String × Mutation) := s.events.filterMap Event.removal?

/-- The mutations whose removal is noted. -/
def removed (s : Sifting) : List Mutation := s.removals.map (·.2)

/-- The log as text. -/
def messages (s : Sifting) : List String := s.events.map Event.message

/-- The messages that tell of a filtered mutant. -/
def notes (s : Sifting) : List String := s.messages.filter tellsOfMutant

/-- No entry of the log is for a feature. -/
def IsOfMutants (s : Sifting) : Prop := ∀ e ∈ s.events, ∀ feature, e ≠ .disabled feature

end Sifting

/-- What rules in sequence remove from a batch: each of them, in the order of the batch, the
mutations that it removes and none before it does. -/
def CompiledUnit.removals (unit : CompiledUnit) :
    List Rule → List Mutation → List (String × Mutation)
  | [], _ => []
  | rule :: rest, batch =>
    (batch.filter (rule.removes unit)).map (rule.name, ·) ++
      unit.removals rest (batch.filter fun m => !rule.removes unit m)

namespace Filter

/-- The filters of a sequence, each with the batch that it is given, up to the first that fails. -/
def stages : List Filter → List Mutation → List (Filter × List Mutation)
  | [], _ => []
  | f :: rest, batch => (f, batch) :: match (f.sift batch).result with
    | .error _ => []
    | .ok kept => stages rest kept

/-- The filter at a place in a tree, which a path of positions among children leads to. -/
def node? : Filter → List Nat → Option Filter
  | f, [] => some f
  | f, i :: path => f.children[i]?.bind (·.node? path)

/-- The filter at a place in a tree and the batch that it is given when the tree sifts one. -/
def stageAt? : Filter → List Mutation → List Nat → Option (Filter × List Mutation)
  | f, batch, [] => some (f, batch)
  | f, batch, i :: path => (stages f.children batch)[i]?.bind fun s => s.1.stageAt? s.2 path

/-- How many mutations filters in sequence note as removed. -/
def loss (children : List Filter) (given : List Mutation) : Nat :=
  ((stages children given).map fun s => (s.1.sift s.2).removed.length).sum

/-- The books of a compound that is given a batch: it calls each child, its log is what they log one
after another, and at the end stands how many mutations they have removed, unless there are none. -/
structure Balanced (kind : FilterKind) (children : List Filter) (given : List Mutation) : Prop where
  complete : (stages children given).map (·.1) = children
  stage : ∀ s ∈ stages children given, ∃ kept, (s.1.sift s.2).result = .ok kept ∧
    ((s.1.sift s.2).removed ++ kept).Perm s.2
  total : ∃ kept, ((compound kind children).sift given).result = .ok kept ∧
    loss children given + kept.length = given.length
  within : loss children given ≤ given.length
  log : ((compound kind children).sift given).events =
    (stages children given).flatMap (fun s => (s.1.sift s.2).events) ++
      if 0 < loss children given then [.reduced (loss children given) given.length] else []
  messages : ((compound kind children).sift given).messages =
    (stages children given).flatMap (fun s => (s.1.sift s.2).messages) ++
      if 0 < loss children given then
        [toString (loss children given) ++ " of " ++ toString given.length ++ " mutations removed"]
      else []

end Filter

variable {rule : Rule} {unit : CompiledUnit} {batch kept : List Mutation}

theorem Event.tells_removed (rule : String) (m : Mutation) :
    tellsOfMutant (removed rule m).message = true := by
  refine decide_eq_true ⟨rule.toList, m.text.toList, ?_⟩
  unfold message
  rw [String.toList_append, String.toList_append]

/-- There is no colon in the message of a total. -/
theorem Event.tells_reduced (count total : Nat) :
    tellsOfMutant (reduced count total).message = false := by
  refine decide_eq_false fun note => ?_
  exact not_mem_message_reduced count total (note.subset (by decide))

theorem Sifting.isOfMutants_nil (result : Except FilterError (List Mutation)) :
    (⟨[], result⟩ : Sifting).IsOfMutants :=
  fun _ member => absurd member List.not_mem_nil

/-- The messages that tell of filtered mutants are those of the removals. -/
theorem Sifting.IsOfMutants.notes_eq {s : Sifting} (mutants : s.IsOfMutants) :
    s.notes = s.removals.map fun entry => (Event.removed entry.1 entry.2).message := by
  obtain ⟨events, result⟩ := s
  unfold IsOfMutants at mutants
  unfold notes messages removals
  dsimp only at mutants ⊢
  induction events with
  | nil => rfl
  | cons e events ih =>
    have later := ih fun e' member => mutants e' (List.mem_cons_of_mem e member)
    rw [List.map_cons]
    cases e with
    | removed rule m =>
      rw [List.filter_cons_of_pos (Event.tells_removed rule m), later]
      rfl
    | reduced count total =>
      rw [List.filter_cons_of_neg (Bool.eq_false_iff.mp (Event.tells_reduced count total)), later]
      rfl
    | disabled feature => exact absurd rfl (mutants _ (List.mem_cons_self ..) feature)

namespace Rule

/-- The rule finds a method for a mutation and finds the mutation equivalent. -/
def finds (rule : Rule) (lookup : Location → Except FilterError Method) (m : Mutation) : Bool :=
  (rule.verdict lookup m).toOption.getD false

theorem finds_search (rule : Rule) (unit : CompiledUnit) :
    rule.finds unit.search = rule.removes unit := by
  funext m
  rw [finds, verdict, removes, CompiledUnit.search]
  by_cases owned : rule.owned.contains m.mutator = true
  · rw [if_pos owned, owned]
    cases unit.methodAt? m.location <;> rfl
  · rw [if_neg owned, Bool.eq_false_of_not_eq_true owned]
    rfl

variable {lookup : Location → Except FilterError Method} {m : Mutation} {rest : List Mutation}

/-- What a rule that fails nowhere does to the first mutation of a batch. -/
theorem siftBy_cons_ok (sifted : (rule.siftBy lookup (m :: rest)).result = .ok kept) :
    ∃ later, (rule.siftBy lookup rest).result = .ok later ∧
      (rule.finds lookup m = true ∧ kept = later ∧ (rule.siftBy lookup (m :: rest)).removals =
          (rule.name, m) :: (rule.siftBy lookup rest).removals ∨
        rule.finds lookup m = false ∧ kept = m :: later ∧
          (rule.siftBy lookup (m :: rest)).removals = (rule.siftBy lookup rest).removals) := by
  rw [siftBy] at sifted ⊢
  cases judged : rule.verdict lookup m with
  | error e =>
    rw [judged] at sifted
    cases sifted
  | ok equivalent =>
    rw [judged] at sifted
    cases equivalent with
    | true => exact ⟨kept, sifted, .inl ⟨by rw [finds, judged]; rfl, rfl, rfl⟩⟩
    | false =>
      cases others : (rule.siftBy lookup rest).result with
      | error e =>
        rw [others] at sifted
        cases sifted
      | ok later =>
        rw [others] at sifted
        obtain rfl := Except.ok.inj sifted
        exact ⟨later, rfl, .inr ⟨by rw [finds, judged]; rfl, rfl, rfl⟩⟩

theorem siftBy_ok (sifted : (rule.siftBy lookup batch).result = .ok kept) :
    kept = batch.filter (fun m => !rule.finds lookup m) ∧
      (rule.siftBy lookup batch).removals =
        (batch.filter (rule.finds lookup)).map (rule.name, ·) := by
  induction batch generalizing kept with
  | nil => exact ⟨(Except.ok.inj sifted).symm, rfl⟩
  | cons m rest ih =>
    obtain ⟨later, others, step⟩ := siftBy_cons_ok sifted
    obtain ⟨rfl, noted⟩ := ih others
    rcases step with ⟨found, rfl, first⟩ | ⟨different, rfl, first⟩
    · simp [found, first, noted]
    · simp [different, first, noted]

theorem siftBy_perm (sifted : (rule.siftBy lookup batch).result = .ok kept) :
    ((rule.siftBy lookup batch).removed ++ kept).Perm batch := by
  obtain ⟨rfl, noted⟩ := siftBy_ok sifted
  rw [Sifting.removed, noted, List.map_map]
  exact (List.map_id _).symm ▸ List.filter_append_perm (rule.finds lookup) batch

theorem siftBy_isOfMutants : (rule.siftBy lookup batch).IsOfMutants := by
  induction batch with
  | nil => exact Sifting.isOfMutants_nil _
  | cons m rest ih =>
    rw [siftBy]
    split
    · exact Sifting.isOfMutants_nil _
    · intro e member feature
      rcases List.mem_cons.mp member with rfl | later
      · exact fun same => by cases same
      · exact ih e later feature
    · exact ih

end Rule

namespace Filter

variable {f g : Filter} {children rest : List Filter} {kind : FilterKind} {given : List Mutation}
  {path : List Nat} {stage : Filter × List Mutation}

theorem compound_events (sifted : (siftAll children batch).result = .ok kept) :
    ((compound kind children).sift batch).events = (siftAll children batch).events ++
      if kept.length = batch.length then []
      else [.reduced (batch.length - kept.length) batch.length] := by
  rw [sift, sifted]
  dsimp only
  split
  · exact (List.append_nil _).symm
  · rfl

/-- The entry for the total is none for a removal. -/
theorem compound_removals (sifted : (siftAll children batch).result = .ok kept) :
    ((compound kind children).sift batch).removals = (siftAll children batch).removals := by
  rw [Sifting.removals, compound_events sifted]
  split <;> simp [Event.removal?, Sifting.removals]

/-- What it takes for filters in sequence to sift a batch. -/
theorem siftAll_cons_ok (sifted : (siftAll (f :: rest) batch).result = .ok kept) :
    ∃ left, (f.sift batch).result = .ok left ∧ (siftAll rest left).result = .ok kept ∧
      (siftAll (f :: rest) batch).events = (f.sift batch).events ++ (siftAll rest left).events ∧
      stages (f :: rest) batch = (f, batch) :: stages rest left := by
  rw [siftAll] at sifted ⊢
  cases first : (f.sift batch).result with
  | error e =>
    rw [first] at sifted
    have failed : Except.error e = .ok kept := first.symm.trans sifted
    cases failed
  | ok left =>
    rw [first] at sifted
    exact ⟨left, rfl, sifted, rfl, by rw [stages, first]⟩

theorem map_fst_stages (sifted : (siftAll children batch).result = .ok kept) :
    (stages children batch).map (·.1) = children := by
  induction children generalizing batch with
  | nil => rfl
  | cons f rest ih =>
    obtain ⟨left, _, later, _, parts⟩ := siftAll_cons_ok sifted
    rw [parts, List.map_cons, ih later]

theorem events_stages (sifted : (siftAll children batch).result = .ok kept) :
    (siftAll children batch).events =
      (stages children batch).flatMap fun s => (s.1.sift s.2).events := by
  induction children generalizing batch with
  | nil => rfl
  | cons f rest ih =>
    obtain ⟨left, _, later, events, parts⟩ := siftAll_cons_ok sifted
    rw [parts, events, List.flatMap_cons, ih later]

theorem stage_ok (sifted : (siftAll children batch).result = .ok kept)
    (member : stage ∈ stages children batch) :
    ∃ left, (stage.1.sift stage.2).result = .ok left := by
  induction children generalizing batch with
  | nil => cases member
  | cons f rest ih =>
    obtain ⟨left, first, later, _, parts⟩ := siftAll_cons_ok sifted
    rw [parts] at member
    rcases List.mem_cons.mp member with rfl | others
    · exact ⟨left, first⟩
    · exact ih later others

theorem loss_eq (sifted : (siftAll children batch).result = .ok kept) :
    loss children batch = (siftAll children batch).removed.length := by
  rw [loss, Sifting.removed, Sifting.removals, events_stages sifted, List.length_map,
    List.filterMap_flatMap, List.length_flatMap]
  simp [Sifting.removed, Sifting.removals]

mutual

/-- The removed mutations together with those that are kept make up the batch. -/
theorem sift_perm : (f : Filter) → {batch kept : List Mutation} →
    (f.sift batch).result = .ok kept → ((f.sift batch).removed ++ kept).Perm batch
  | rule r none, [], _, sifted => by
    obtain rfl := Except.ok.inj sifted
    exact .refl _
  | rule r none, _ :: _, _, sifted => by cases sifted
  | rule r (some active), batch, kept, sifted => by
    rw [rule_sift] at sifted ⊢
    exact Rule.siftBy_perm sifted
  | compound kind children, batch, kept, sifted => by
    rw [compound_result] at sifted
    rw [Sifting.removed, compound_removals sifted]
    exact siftAll_perm children sifted

theorem siftAll_perm : (children : List Filter) → {batch kept : List Mutation} →
    (siftAll children batch).result = .ok kept →
      ((siftAll children batch).removed ++ kept).Perm batch
  | [], _, _, sifted => by
    obtain rfl := Except.ok.inj sifted
    exact .refl _
  | f :: rest, batch, kept, sifted => by
    obtain ⟨left, first, later, events, _⟩ := siftAll_cons_ok sifted
    have parts : (siftAll (f :: rest) batch).removed =
        (f.sift batch).removed ++ (siftAll rest left).removed := by
      simp [Sifting.removed, Sifting.removals, events]
    rw [parts, List.append_assoc]
    exact ((siftAll_perm rest later).append_left _).trans (sift_perm f first)

end

mutual

theorem sift_isOfMutants : (f : Filter) → {batch kept : List Mutation} →
    (f.sift batch).result = .ok kept → (f.sift batch).IsOfMutants
  | rule r none, [], _, _ => Sifting.isOfMutants_nil _
  | rule r none, _ :: _, _, sifted => by cases sifted
  | rule r (some active), batch, _, _ => by
    rw [rule_sift]
    exact Rule.siftBy_isOfMutants
  | compound kind children, batch, kept, sifted => by
    rw [compound_result] at sifted
    intro e member feature
    rw [compound_events sifted] at member
    rcases List.mem_append.mp member with inner | total
    · exact siftAll_isOfMutants children sifted e inner feature
    · split at total
      · cases total
      · obtain rfl := List.mem_singleton.mp total
        exact fun same => by cases same

theorem siftAll_isOfMutants : (children : List Filter) → {batch kept : List Mutation} →
    (siftAll children batch).result = .ok kept → (siftAll children batch).IsOfMutants
  | [], _, _, _ => Sifting.isOfMutants_nil _
  | f :: rest, batch, kept, sifted => by
    obtain ⟨left, first, later, events, _⟩ := siftAll_cons_ok sifted
    intro e member feature
    rw [events] at member
    rcases List.mem_append.mp member with here | behind
    · exact sift_isOfMutants f first e here feature
    · exact siftAll_isOfMutants rest later e behind feature

end

theorem balanced (kind : FilterKind) (sifted : (siftAll children given).result = .ok kept) :
    Balanced kind children given := by
  have total : loss children given + kept.length = given.length := by
    rw [loss_eq sifted, ← List.length_append, (siftAll_perm children sifted).length_eq]
  have log : ((compound kind children).sift given).events =
      (stages children given).flatMap (fun s => (s.1.sift s.2).events) ++
        if 0 < loss children given then [.reduced (loss children given) given.length] else [] := by
    rw [compound_events sifted, events_stages sifted]
    by_cases all : kept.length = given.length
    · rw [if_pos all, if_neg (by omega)]
    · have rest : given.length - kept.length = loss children given := by omega
      rw [if_neg all, if_pos (by omega), rest]
  refine ⟨map_fst_stages sifted, fun s member => ?_,
    ⟨kept, (compound_result ..).trans sifted, total⟩, by omega, log, ?_⟩
  · obtain ⟨left, ok⟩ := stage_ok sifted member
    exact ⟨left, ok, sift_perm s.1 ok⟩
  · rw [Sifting.messages, log, List.map_append, List.map_flatMap]
    congr 1
    split <;> rfl

/-- When a tree sifts a batch, each filter in it is given a batch, and what it logs is a part of the
whole log. -/
theorem exists_stage (sifted : (f.sift batch).result = .ok kept) (there : f.node? path = some g) :
    ∃ given left, f.stageAt? batch path = some (g, given) ∧ (g.sift given).result = .ok left ∧
      (g.sift given).events <:+: (f.sift batch).events := by
  induction path generalizing f batch kept with
  | nil =>
    obtain rfl := Option.some.inj there
    exact ⟨batch, kept, rfl, sifted, List.infix_refl _⟩
  | cons i path ih =>
    obtain ⟨child, atChild, below⟩ := Option.bind_eq_some_iff.mp there
    cases f with
    | rule r unit => cases atChild
    | compound kind children =>
      rw [compound_result] at sifted
      -- No child fails, so each of them is called, and the stages stand where the children do.
      have position : ((stages children batch).map (·.1))[i]? = some child := by
        rw [map_fst_stages sifted]
        exact atChild
      rw [List.getElem?_map] at position
      obtain ⟨s, atStage, rfl⟩ := Option.map_eq_some_iff.mp position
      have member := List.mem_of_getElem? atStage
      obtain ⟨left, ok⟩ := stage_ok sifted member
      obtain ⟨given, last, found, result, inside⟩ := ih ok below
      refine ⟨given, last, ?_, result, inside.trans ?_⟩
      · rw [stageAt?, Filter.children, atStage]
        exact found
      · rw [compound_events sifted, events_stages sifted]
        have part : (s.1.sift s.2).events <:+:
            (stages children batch).flatMap fun s => (s.1.sift s.2).events :=
          List.infix_of_mem_flatten (List.mem_map_of_mem member)
        exact part.trans (List.infix_append' [] _ _)

end Filter

namespace CompiledUnit

theorem removals_append (unit : CompiledUnit) (rules rules' : List Rule) (batch : List Mutation) :
    unit.removals (rules ++ rules') batch = unit.removals rules batch ++
      unit.removals rules' (batch.filter fun m => !rules.any (·.removes unit m)) := by
  induction rules generalizing batch with
  | nil => simp [removals]
  | cons rule rules ih =>
    rw [List.cons_append, removals, removals, ih, List.append_assoc, List.filter_filter]
    simp only [List.any_cons, Bool.not_or, Bool.and_comm]

end CompiledUnit

namespace Filter

theorem begin_ok {f : Filter} (sifted : ((f.begin unit).sift batch).result = .ok kept) :
    kept = batch.filter fun m => !f.rules.any (·.removes unit m) := by
  rw [begin_result, CompiledUnit.sieve] at sifted
  split at sifted
  · cases sifted
  · exact (Except.ok.inj sifted).symm

mutual

/-- The removals are noted rule by rule, and for each rule in the order of the batch. -/
theorem begin_removals (unit : CompiledUnit) : (f : Filter) → {batch kept : List Mutation} →
    ((f.begin unit).sift batch).result = .ok kept →
      ((f.begin unit).sift batch).removals = unit.removals f.rules batch
  | rule r state, batch, kept, sifted => by
    have search : ((rule r state).begin unit).sift batch = r.siftBy unit.search batch :=
      (rule_sift ..).trans (by rw [unit.activate_resolve])
    rw [search] at sifted ⊢
    rw [(Rule.siftBy_ok sifted).2, r.finds_search unit]
    exact (List.append_nil _).symm
  | compound kind children, batch, kept, sifted => by
    have parts := (compound_result ..).symm.trans sifted
    exact (compound_removals parts).trans (setUnits_removals unit children parts)

theorem setUnits_removals (unit : CompiledUnit) : (children : List Filter) →
    {batch kept : List Mutation} →
    (siftAll (setUnits (some unit.activate) children) batch).result = .ok kept →
      (siftAll (setUnits (some unit.activate) children) batch).removals =
        unit.removals ((leavesOf children).map (·.1)) batch
  | [], _, _, _ => rfl
  | f :: rest, batch, kept, sifted => by
    obtain ⟨left, first, later, events, _⟩ := siftAll_cons_ok sifted
    have remaining : left = batch.filter fun m => !f.rules.any (·.removes unit m) := begin_ok first
    have parts : (siftAll (setUnits (some unit.activate) (f :: rest)) batch).removals =
        ((f.begin unit).sift batch).removals ++
          (siftAll (setUnits (some unit.activate) rest) left).removals := by
      rw [Sifting.removals, setUnits, events, List.filterMap_append]
      rfl
    rw [parts, leavesOf, List.map_append, unit.removals_append, begin_removals unit f first,
      setUnits_removals unit rest later, remaining]
    rfl

end

/-- The log accounts for what a tree of filters that works on a unit makes of a batch. It notes each
removed mutation once, rule by rule and in the order of the batch, so the notes are as many as the
mutations that are missing; and the messages that tell of filtered mutants name the rule, the
mutator and the instruction for each of them. Each compound in the tree logs what its children log
and, behind that, how many of the mutations that it is given they have removed, if they have removed
any. -/
theorem sift_accounts {f : Filter} (sifted : ((f.begin unit).sift batch).result = .ok kept) :
    ((f.begin unit).sift batch).removals = unit.removals f.rules batch ∧
      ((f.begin unit).sift batch).notes = (unit.removals f.rules batch).map (fun (rule, m) =>
        rule ++ ": filtered equivalent mutant " ++ (m.mutator ++ " at " ++
          (m.location.className ++ "::" ++ m.location.methodName ++ m.location.descriptor) ++
          "[" ++ toString m.index.toNat ++ "]" ++
          m.line.elim "" fun line => " line " ++ toString line.toNat)) ∧
      (((f.begin unit).sift batch).removed ++ kept).Perm batch ∧
      ((f.begin unit).sift batch).removed.length + kept.length = batch.length ∧
      ((f.begin unit).sift batch).notes.length + kept.length = batch.length ∧
      ∀ path kind children, (f.begin unit).node? path = some (compound kind children) →
        ∃ given, (f.begin unit).stageAt? batch path = some (compound kind children, given) ∧
          ((compound kind children).sift given).events <:+: ((f.begin unit).sift batch).events ∧
          ((compound kind children).sift given).messages <:+:
            ((f.begin unit).sift batch).messages ∧
          Balanced kind children given := by
  have accounts := sift_perm (f.begin unit) sifted
  have notes := (sift_isOfMutants (f.begin unit) sifted).notes_eq
  have removals := begin_removals unit f sifted
  have complete : ((f.begin unit).sift batch).removed.length + kept.length = batch.length := by
    rw [← List.length_append, accounts.length_eq]
  refine ⟨removals, ?_, accounts, complete, ?_, fun path kind children there => ?_⟩
  · rw [notes, removals]
    rfl
  · rwa [notes, List.length_map, ← List.length_map (Prod.snd : String × Mutation → Mutation)]
  · obtain ⟨given, left, found, result, inside⟩ := exists_stage sifted there
    have books := balanced kind ((compound_result ..).symm.trans result)
    exact ⟨given, found, inside, inside.map Event.message, books⟩

/-- The mutant that returns null, twice in one batch. -/
def repeatedMutant : List Mutation := [zeroMutant, nullMutant, callMutant, nullMutant]

theorem sift_accounts_repeatedMutant :
    ((nullBeforeZero.begin nullFactory).sift repeatedMutant).result =
        .ok [zeroMutant, callMutant] ∧
      ((nullBeforeZero.begin nullFactory).sift repeatedMutant).removals =
        [("null-returns", nullMutant), ("null-returns", nullMutant)] ∧
      ((nullBeforeZero.begin nullFactory).sift repeatedMutant).notes =
        ["null-returns: filtered equivalent mutant NULL_RETURNS at a/B::m()La/B;[1]",
          "null-returns: filtered equivalent mutant NULL_RETURNS at a/B::m()La/B;[1]"] ∧
      ∃ inner given, (nullBeforeZero.begin nullFactory).node? [1] = some (.compound .other inner) ∧
        (nullBeforeZero.begin nullFactory).stageAt? repeatedMutant [1] =
          some (.compound .other inner, given) ∧
        Balanced .other inner given := by
  have kept : nullFactory.sieve nullBeforeZero.rules repeatedMutant =
      .ok [zeroMutant, callMutant] := by cbv
  have noted : nullFactory.removals nullBeforeZero.rules repeatedMutant =
      [("null-returns", nullMutant), ("null-returns", nullMutant)] := by cbv
  have sifted := (begin_result nullBeforeZero nullFactory repeatedMutant).trans kept
  obtain ⟨removals, notes, -, -, -, compounds⟩ := sift_accounts sifted
  obtain ⟨given, found, -, -, balanced⟩ := compounds [1] .other _ rfl
  rw [noted] at removals notes
  exact ⟨sifted, removals, notes.trans (by decide), _, given, rfl, found, balanced⟩

end Filter

end MutantSieve
