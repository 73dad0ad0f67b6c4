import MutantSieve.Proofs.Pattern.CaptureWindow
import MutantSieve.Proofs.Pattern.Layout
import MutantSieve.Proofs.Pattern.Merging

namespace MutantSieve

namespace Program

/-- Some positions are explored one after another, each with all that its targets lead to before the
next. The positions that are come to are listed in the order in which this first happens; those in
`been` do not count. -/
inductive Explores (program : Program) : Finset Nat → List Nat → List Nat → Prop
  | none {been} : Explores program been [] []
  | again {been position pending order} :
      position ∈ been → Explores program been pending order →
      Explores program been (position :: pending) order
  | enter {been position step pending inner order} :
      position ∉ been → program[position]? = some step →
      Explores program (insert position been) step.targets inner →
      Explores program (insert position been ∪ inner.toFinset) pending order →
      Explores program been (position :: pending) (position :: inner ++ order)

/-- Splits and jumps lead from one position to another, over positions outside `been` only. -/
inductive Leads (program : Program) (been : Finset Nat) : Nat → Nat → Prop
  | here {position} : position ∉ been → Leads program been position position
  | move {position step target goal} :
      position ∉ been → program[position]? = some step → target ∈ step.targets →
      Leads program been target goal → Leads program been position goal

variable {program : Program} {been been' : Finset Nat} {pending order : List Nat}
  {position goal : Nat}

theorem Leads.mono (leads : program.Leads been' position goal) (fewer : been ⊆ been') :
    program.Leads been position goal := by
  induction leads with
  | here new => exact .here (mt (@fewer _) new)
  | move new step member _ ih => exact .move (mt (@fewer _) new) step member ih

/-- What is explored in one go can be explored in two. -/
theorem Explores.split {before after : List Nat}
    (explores : program.Explores been (before ++ after) order) :
    ∃ first second, program.Explores been before first ∧
      program.Explores (been ∪ first.toFinset) after second ∧ order = first ++ second := by
  induction before generalizing been order with
  | nil => exact ⟨[], order, .none, by simpa using explores, rfl⟩
  | cons position before ih =>
    cases explores with
    | again old others =>
      obtain ⟨first, second, explored, behind, rfl⟩ := ih others
      exact ⟨first, second, .again old explored, behind, rfl⟩
    | @enter _ _ _ _ inner _ new step inside others =>
      obtain ⟨first, second, explored, behind, rfl⟩ := ih others
      refine ⟨position :: inner ++ first, second, .enter new step inside explored, ?_, by simp⟩
      have same : been ∪ (position :: inner ++ first).toFinset =
          insert position been ∪ inner.toFinset ∪ first.toFinset := by
        ext p
        simp only [Finset.mem_union, Finset.mem_insert, List.mem_toFinset, List.mem_append,
          List.mem_cons]
        tauto
      rwa [same]

/-- A position is listed once, and not if it does not count. -/
theorem Explores.nodup (explores : program.Explores been pending order) :
    order.Nodup ∧ ∀ p ∈ order, p ∉ been := by
  induction explores with
  | none => exact ⟨List.nodup_nil, nofun⟩
  | again _ _ ih => exact ih
  | @enter been position _ _ inner order new _ _ _ ihInner ihOthers =>
    obtain ⟨onceInner, newInner⟩ := ihInner
    obtain ⟨onceOthers, newOthers⟩ := ihOthers
    simp only [Finset.mem_union, Finset.mem_insert, List.mem_toFinset, not_or] at newInner newOthers
    refine ⟨?_, ?_⟩
    · rw [List.cons_append, List.nodup_cons, List.mem_append, not_or, List.nodup_append']
      refine ⟨⟨fun member => (newInner _ member).1 rfl, fun member => (newOthers _ member).1.1 rfl⟩,
        onceInner, onceOthers, fun p inInner inOthers => (newOthers p inOthers).2 inInner⟩
    · intro p member
      rcases List.mem_append.mp member with first | last
      · rcases List.mem_cons.mp first with rfl | inInner
        · exact new
        · exact (newInner p inInner).2
      · exact (newOthers p last).1.2

theorem Explores.exists_leads (explores : program.Explores been pending order) {p : Nat}
    (member : p ∈ order) : ∃ start ∈ pending, program.Leads been start p := by
  induction explores with
  | none => cases member
  | again _ _ ih =>
    obtain ⟨start, inPending, leads⟩ := ih member
    exact ⟨start, List.mem_cons_of_mem _ inPending, leads⟩
  | @enter been position _ _ inner order new step _ _ ihInner ihOthers =>
    rcases List.mem_append.mp member with first | last
    · refine ⟨position, List.mem_cons_self .., ?_⟩
      rcases List.mem_cons.mp first with rfl | inInner
      · exact .here new
      · obtain ⟨target, isTarget, leads⟩ := ihInner inInner
        exact .move new step isTarget (leads.mono (Finset.subset_insert ..))
    · obtain ⟨start, inPending, leads⟩ := ihOthers last
      have fewer : been ⊆ insert position been ∪ inner.toFinset :=
        (Finset.subset_insert ..).trans Finset.subset_union_left
      exact ⟨start, List.mem_cons_of_mem _ inPending, leads.mono fewer⟩

/-- Whatever is explored has been or is listed, and so are its targets if it is listed. -/
theorem Explores.closed (explores : program.Explores been pending order) :
    (∀ p ∈ pending, p ∈ been ∨ p ∈ order) ∧
      ∀ p ∈ order, ∀ step, program[p]? = some step →
        ∀ target ∈ step.targets, target ∈ been ∨ target ∈ order := by
  induction explores with
  | none => exact ⟨nofun, nofun⟩
  | again old _ ih =>
    obtain ⟨come, goesOn⟩ := ih
    exact ⟨List.forall_mem_cons.mpr ⟨.inl old, come⟩, goesOn⟩
  | @enter been position step _ inner order new here _ _ ihInner ihOthers =>
    obtain ⟨comeInner, goesOnInner⟩ := ihInner
    obtain ⟨comeOthers, goesOnOthers⟩ := ihOthers
    simp only [Finset.mem_union, Finset.mem_insert, List.mem_toFinset] at *
    refine ⟨?_, ?_⟩
    · refine List.forall_mem_cons.mpr ⟨.inr (by simp), fun p member => ?_⟩
      have := comeOthers p member
      grind
    · intro p member step' here' target isTarget
      rcases List.mem_append.mp member with first | last
      · rcases List.mem_cons.mp first with rfl | inInner
        · obtain rfl := Option.some.inj (here.symm.trans here')
          have := comeInner target isTarget
          grind
        · have := goesOnInner p inInner step' here' target isTarget
          grind
      · have := goesOnOthers p last step' here' target isTarget
        grind

theorem Leads.mem (leads : program.Leads been position goal)
    (explores : program.Explores been pending order) (come : position ∈ been ∨ position ∈ order) :
    goal ∈ order := by
  induction leads with
  | here new => exact come.resolve_left new
  | move new step member _ ih =>
    exact ih (explores.closed.2 _ (come.resolve_left new) _ step _ member)

/-- The positions that are listed are those that the pending ones lead to. -/
theorem Explores.mem_iff (explores : program.Explores been pending order) {p : Nat} :
    p ∈ order ↔ ∃ start ∈ pending, program.Leads been start p :=
  ⟨explores.exists_leads, fun ⟨start, member, leads⟩ =>
    leads.mem explores (explores.closed.1 start member)⟩

/-- Splits and jumps do not lead out of the program. -/
def Stays (program : Program) : Prop :=
  ∀ (position : Nat) step, program[position]? = some step →
    ∀ target ∈ step.targets, target < program.size

/-- Whether the step at a position is a test. -/
def testsAt (program : Program) (position : Nat) : Bool := program[position]?.any Step.isTest

variable {c c' : Context} {n : Nat} {pending' : List Nat} {f f' next : Frontier program.size}

theorem been_enter (f : Frontier program.size) (step : Step) (inside : position < program.size)
    (c c' : Context) : (f.enter step position inside c).been c' =
      if c' = c then insert position (f.been c') else f.been c' := by
  rw [← f.been_visit inside]
  unfold Frontier.been
  rw [Frontier.seen_enter]

theorem been_enter_self (f : Frontier program.size) (step : Step)
    (inside : position < program.size) (c : Context) :
    (f.enter step position inside c).been c = insert position (f.been c) := by
  rw [been_enter, if_pos rfl]

/-- A closure that leaves nothing pending has explored what was pending; its threads wait at the
tests, and the end of the pattern is not among what it has come to. -/
theorem Rounds.explores (rounds : program.Rounds c n pending f [] next) (stays : program.Stays)
    (inside : ∀ position ∈ pending, position < program.size) :
    ∃ order, program.Explores (f.been c) pending order ∧
      (∀ p ∈ order, program[p]? ≠ some .accept) ∧
      next.threads.toList =
        f.threads.toList ++ (order.filter program.testsAt).map fun p => ⟨p, c⟩ := by
  generalize nothing : ([] : List Nat) = last at rounds
  induction rounds with
  | none =>
    subst nothing
    exact ⟨[], .none, nofun, by simp⟩
  | next round _ ih =>
    cases round with
    | beyond outside => exact absurd (inside _ (List.mem_cons_self ..)) (Nat.not_lt.mpr outside)
    | again within old =>
      obtain ⟨order, explores, notEnd, threads⟩ :=
        ih (fun p member => inside p (List.mem_cons_of_mem _ member)) nothing
      exact ⟨order, .again (Frontier.mem_been.mpr ⟨within, old⟩) explores, notEnd, threads⟩
    | @enter position pending f within new goesOn =>
      have here : program[position]? = some program[position] := Array.getElem?_eq_getElem within
      obtain ⟨order, explores, notEnd, threads⟩ := ih (fun p member => by
        rcases List.mem_append.mp member with target | old
        · exact stays position _ here p target
        · exact inside p (List.mem_cons_of_mem _ old)) nothing
      rw [been_enter_self] at explores
      -- The targets are pending in front, so all that they lead to comes before the others.
      obtain ⟨inner, others, exploresInner, exploresOthers, rfl⟩ := explores.split
      refine ⟨position :: inner ++ others, .enter (fun old => new (Frontier.mem_been.mp old).2)
        here exploresInner exploresOthers, ?_, ?_⟩
      · refine List.forall_mem_cons.mpr ⟨?_, notEnd⟩
        rw [here]
        exact fun ends => goesOn (Option.some.inj ends)
      · have tests : program.testsAt position = program[position].isTest := by
          rw [testsAt, here, Option.any_some]
        rw [threads, Frontier.threads_enter, List.append_assoc, List.cons_append, List.filter_cons,
          tests]
        split <;> simp

/-- What is pending at some time, and where the context has not been, can be reached from what was
pending before. -/
theorem Rounds.exists_leads (rounds : program.Rounds c n pending f pending' f') {p : Nat}
    (member : p ∈ pending') (new : p ∉ f'.been c) :
    ∃ start ∈ pending, program.Leads (f.been c) start p := by
  induction rounds with
  | none => exact ⟨p, member, .here new⟩
  | next round _ ih =>
    obtain ⟨start, inPending, leads⟩ := ih member new
    cases round with
    | beyond | again => exact ⟨start, List.mem_cons_of_mem _ inPending, leads⟩
    | @enter position pending f within new goesOn =>
      rw [been_enter_self] at leads
      have leads := leads.mono (Finset.subset_insert ..)
      rcases List.mem_append.mp inPending with target | old
      · refine ⟨position, List.mem_cons_self .., .move (fun old => ?_)
          (Array.getElem?_eq_getElem within) target leads⟩
        exact new (Frontier.mem_been.mp old).2
      · exact ⟨start, List.mem_cons_of_mem _ old, leads⟩

/-- A closure ends at the end of the pattern exactly if this can be reached. -/
theorem close_eq_none_iff (stays : program.Stays)
    (inside : ∀ position ∈ pending, position < program.size) :
    program.close c pending f = none ↔
      ∃ p, program[p]? = some .accept ∧ ∃ start ∈ pending, program.Leads (f.been c) start p := by
  refine ⟨fun ends => ?_, fun ⟨p, accept, reached⟩ => ?_⟩
  · obtain ⟨n, pending', f', rounds, p, rest, within, rfl, new, accept⟩ :=
      rounds_of_close_none ends
    refine ⟨p, Array.getElem?_eq_some_iff.mpr ⟨within, accept⟩, ?_⟩
    exact rounds.exists_leads (List.mem_cons_self ..) fun old => new (Frontier.mem_been.mp old).2
  · cases closed : program.close c pending f with
    | none => rfl
    | some next =>
      obtain ⟨n, rounds⟩ := rounds_of_close closed
      obtain ⟨order, explores, notEnd, -⟩ := rounds.explores stays inside
      exact absurd accept (notEnd p (explores.mem_iff.mpr reached))

/-- No thread is there twice, and each has been where it waits. -/
structure Distinct (f : Frontier program.size) : Prop where
  nodup : f.threads.toList.Nodup
  been : ∀ thread ∈ f.threads.toList, thread.position ∈ f.been thread.context

theorem distinct_empty : Distinct (Frontier.empty : Frontier program.size) :=
  ⟨List.nodup_nil, nofun⟩

theorem keptByRounds_distinct (program : Program) : program.KeptByRounds Distinct := by
  intro c pending f pending' f' round distinct
  cases round with
  | beyond | again => exact distinct
  | @enter position pending f inside new _ =>
    refine ⟨?_, fun thread member => ?_⟩
    · rw [Frontier.threads_enter]
      split
      · refine List.nodup_append'.mpr ⟨distinct.nodup, List.nodup_singleton _, ?_⟩
        rw [List.disjoint_singleton]
        exact fun old => new (Frontier.mem_been.mp (distinct.been _ old)).2
      · rw [List.append_nil]
        exact distinct.nodup
    · rw [been_enter]
      rcases Frontier.mem_threads_enter member with old | ⟨-, rfl⟩
      · split
        · exact Finset.mem_insert_of_mem (distinct.been thread old)
        · exact distinct.been thread old
      · rw [if_pos rfl]
        exact Finset.mem_insert_self ..

theorem countP_testsAt (program : Program) :
    (List.range program.size).countP program.testsAt = program.countP Step.isTest := by
  have steps : (List.range program.size).map (fun position => program[position]?) =
      program.toList.map some := by
    apply List.ext_getElem
    · simp
    · simp
  have counted := congrArg (List.countP fun step : Option Step => step.any Step.isTest) steps
  rw [List.countP_map, List.countP_map] at counted
  rw [← Array.countP_toList]
  exact counted

/-- Threads with one and the same context are no more than the tests. -/
theorem Distinct.size_le {f : Frontier program.size} (distinct : Distinct f)
    (waiting : program.Waiting (fun _ d => d = c) f.threads.toList) :
    f.threads.size ≤ program.countP Step.isTest := by
  have once : (f.threads.toList.map Thread.position).Nodup := by
    refine List.Nodup.map_on (fun thread member thread' member' same => ?_) distinct.nodup
    have contexts := (waiting thread member).2.trans (waiting thread' member').2.symm
    cases thread
    cases thread'
    simp_all
  have tests : f.threads.toList.map Thread.position ⊆
      (List.range program.size).filter program.testsAt := by
    intro position member
    obtain ⟨thread, waits, rfl⟩ := List.mem_map.mp member
    obtain ⟨p, step⟩ := (waiting thread waits).1
    have inside := (Array.getElem?_eq_some_iff.mp step).1
    exact List.mem_filter.mpr ⟨List.mem_range.mpr inside, by simp [testsAt, step, Step.isTest]⟩
  have fewer := (once.subperm tests).length_le
  rwa [List.length_map, Array.length_toList, ← List.countP_eq_length_filter,
    countP_testsAt] at fewer

/-- What a closure from a position adds to a frontier: it comes to some positions in the order in
which they are explored, each once, and they are all that the position leads to. The context waits
at the tests among them, behind the threads that there were. -/
structure Adds (program : Program) (c : Context) (position : Nat) (f next : Frontier program.size)
    (order : List Nat) : Prop where
  explores : program.Explores (f.been c) [position] order
  nodup : order.Nodup
  mem_iff : ∀ p, p ∈ order ↔ program.Leads (f.been c) position p
  threads : next.threads.toList =
    f.threads.toList ++ (order.filter program.testsAt).map fun p => ⟨p, c⟩

/-- A context has been at a position if one with the same bindings has. -/
theorem mem_been_iff (f : Frontier program.size) (c : Context) (p : Nat) :
    p ∈ f.been c ↔ ∃ inside : p < program.size, ∃ d ∈ f.seen[p], d.sameBindings c = true := by
  simp only [Frontier.mem_been, Context.sameBindings_iff, exists_eq_right]

end Program

namespace Query

open Program

theorem program_stays (q : Query) : q.program.Stays := by
  intro position step here target member
  rw [size_program]
  exact Nat.lt_succ_of_le (target_le q here member)

theorem exists_adds (q : Query) {c : Context} {position : Nat} {f next : Frontier q.program.size}
    (inside : position < q.program.size) (closed : q.program.close c [position] f = some next) :
    ∃ order, q.program.Adds c position f next order := by
  obtain ⟨n, rounds⟩ := rounds_of_close closed
  obtain ⟨order, explores, -, threads⟩ := rounds.explores (program_stays q) (by simpa using inside)
  refine ⟨order, explores, explores.nodup.1, fun p => ?_, threads⟩
  rw [explores.mem_iff]
  simp only [List.mem_singleton, exists_eq_left]

/-- Without captures, all threads of a search have the context that it started with. -/
theorem keeps_context {q : Query} (noCaptures : q.targets = []) (c : Context) :
    q.program.Keeps fun _ d => d = c where
  move _ same := same
  test {position p token d} step same _ := by
    have noTargets : p.targets = [] :=
      List.subset_nil.mp (noCaptures ▸ targets_subset_of_test step)
    have unchanged : (p.test token d).2 = d :=
      Context.ext_get? fun key => Predicate.get?_test (by simp [noTargets])
    rw [unchanged, same]

/-- From any position of a query's program and whatever frontier there is, a closure ends, after no
more rounds than the size of the program allows, also where repetitions lead in a circle without a
test. It comes to the end of the pattern exactly if the position leads there over positions where no
context with the same bindings has been; otherwise it adds threads at the tests that the position
leads to in that way. So in all frontiers of a search no two threads have the same position and
bindings, and if the query captures nothing, there are no more threads than tests. -/
theorem close_reaches (q : Query) :
    (∀ (c : Context) (position : Nat) (f : Frontier q.program.size), position < q.program.size →
      (∀ p, p ∈ f.been c ↔
        ∃ inside : p < q.program.size, ∃ d ∈ f.seen[p], d.sameBindings c = true) ∧
      (∀ n pending g, q.program.Rounds c n [position] f pending g →
        n ≤ 2 * q.program.size + 1) ∧
      (∃ n pending g, q.program.Rounds c n [position] f pending g ∧
        (pending = [] ∧ q.program.close c [position] f = some g ∨
          q.program.AtEnd c pending g ∧ q.program.close c [position] f = none)) ∧
      (q.program.close c [position] f = none ↔
        ∃ p, q.program[p]? = some .accept ∧ q.program.Leads (f.been c) position p) ∧
      ∀ next, q.program.close c [position] f = some next →
        ∃ order, q.program.Adds c position f next order) ∧
    ∀ c tokens d pending f, q.program.Closing c tokens d pending f →
      f.threads.toList.Pairwise (fun thread other =>
        ¬(thread.position = other.position ∧
          thread.context.sameBindings other.context = true)) ∧
      (q.targets = [] → f.threads.size ≤ q.program.countP Step.isTest) := by
  refine ⟨fun c position f inside => ⟨mem_been_iff f c, fun n pending g rounds => rounds.bound,
    exists_rounds q.program c [position] f, ?_, fun next => exists_adds q inside⟩, ?_⟩
  · rw [close_eq_none_iff (program_stays q) (by simpa using inside)]
    simp only [List.mem_singleton, exists_eq_left]
  · intro c tokens d pending f closing
    have distinct := closing.kept (keptByRounds_distinct q.program) distinct_empty
    refine ⟨List.Pairwise.imp ?_ distinct.nodup, fun noCaptures => ?_⟩
    · intro thread other differ ⟨positions, bindings⟩
      have contexts := Context.sameBindings_iff.mp bindings
      cases thread
      cases other
      simp_all
    · exact distinct.size_le (closing.waiting (keeps_context noCaptures c) rfl).2

/-- An optional instruction, repeated twice over, and an instruction behind that. -/
def nestedRepetitions : Query :=
  repeated (repeated (either done (accept .any done) done) done) (accept .any done)

example : nestedRepetitions.program =
    #[.split 7 1, .split 6 2, .split 3 4, .jump 5, .test .any, .jump 1, .jump 0, .test .any,
      .accept] := rfl

/-- The inner repetition leads back to the outer one. -/
theorem close_reaches_nestedRepetitions :
    (∃ next, nestedRepetitions.program.close .empty [0] .empty = some next ∧
      next.threads.toList = [⟨7, .empty⟩, ⟨4, .empty⟩] ∧
      ∃ order, nestedRepetitions.program.Adds .empty 0 .empty next order) ∧
    nestedRepetitions.targets = [] ∧
    nestedRepetitions.program.Closing .empty [] .empty [1]
      (((Frontier.empty.visit 0 (by decide) .empty).visit 7 (by decide) .empty).push ⟨7, .empty⟩) ∧
    1 ≤ nestedRepetitions.program.countP Step.isTest := by
  obtain ⟨closes, searches⟩ := close_reaches nestedRepetitions
  obtain ⟨-, -, -, -, adds⟩ := closes .empty 0 .empty (by decide)
  have closing : nestedRepetitions.program.Closing .empty [] .empty [1]
      (((Frontier.empty.visit 0 (by decide) .empty).visit 7 (by decide) .empty).push
        ⟨7, .empty⟩) :=
    .round (.round (.fresh .start) (.enter (by decide) (by decide) (by decide)))
      (.enter (by decide) (by decide) (by decide))
  have threads : (nestedRepetitions.program.close .empty [0] .empty).map
      (fun f => f.threads.toList) = some [⟨7, .empty⟩, ⟨4, .empty⟩] := by cbv
  obtain ⟨next, closed, waiting⟩ := Option.map_eq_some_iff.mp threads
  exact ⟨⟨next, closed, waiting, adds next closed⟩, rfl, closing,
    (searches _ _ _ _ _ closing).2 rfl⟩

end Query

end MutantSieve
