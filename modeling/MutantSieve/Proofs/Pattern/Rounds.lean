import MutantSieve.Proofs.Pattern.Threads

namespace MutantSieve

/-- The positions at which a step goes on without consuming a token, the preferred one first. -/
def Step.targets : Step → List Nat
  | .split first second => [first, second]
  | .jump target => [target]
  | .test _ | .accept => []

/-- Whether a step consumes a token. -/
def Step.isTest : Step → Bool
  | .test _ => true
  | .split .. | .jump _ | .accept => false

theorem Step.isTest_iff {step : Step} : step.isTest = true ↔ ∃ p, step = .test p := by
  cases step <;> simp [isTest]

theorem Step.length_targets (step : Step) : step.targets.length ≤ 2 := by
  cases step <;> simp [targets]

namespace Frontier

variable {size : Nat}

/-- Records that a context has been at a position; if the step there is a test, the thread waits at
it. -/
def enter (f : Frontier size) (step : Step) (position : Nat) (inside : position < size)
    (c : Context) : Frontier size :=
  if step.isTest then (f.visit position inside c).push ⟨position, c⟩ else f.visit position inside c

theorem seen_enter (f : Frontier size) (step : Step) {position : Nat} (inside : position < size)
    (c : Context) : (f.enter step position inside c).seen = (f.visit position inside c).seen := by
  unfold enter
  split <;> rfl

theorem threads_enter (f : Frontier size) (step : Step) {position : Nat}
    (inside : position < size) (c : Context) :
    (f.enter step position inside c).threads.toList =
      f.threads.toList ++ if step.isTest then [⟨position, c⟩] else [] := by
  unfold enter
  split
  · exact Array.toList_push
  · exact (List.append_nil _).symm

theorem mem_threads_enter {f : Frontier size} {step : Step} {position : Nat}
    {inside : position < size} {c : Context} {thread : Thread}
    (member : thread ∈ (f.enter step position inside c).threads.toList) :
    thread ∈ f.threads.toList ∨ step.isTest = true ∧ thread = ⟨position, c⟩ := by
  rw [threads_enter, List.mem_append] at member
  refine member.imp_right fun last => ?_
  split at last
  · next test => exact ⟨test, List.mem_singleton.mp last⟩
  · cases last

theorem unseen_enter_lt {f : Frontier size} (step : Step) {position : Nat}
    {inside : position < size} {c : Context} (new : c ∉ f.seen[position]) :
    (f.enter step position inside c).unseen c < f.unseen c := by
  rw [unseen, seen_enter]
  exact unseen_visit_lt new

theorem unseen_le (f : Frontier size) (c : Context) : f.unseen c ≤ size := Vector.countP_le_size

end Frontier

namespace Program

/-- One round of a closure in the context `c`. The first pending position is beyond the program, or
the context has been there; or else the context enters it, and its targets come to be pending in its
place. The end of the pattern ends the closure. -/
inductive Round (program : Program) (c : Context) :
    List Nat → Frontier program.size → List Nat → Frontier program.size → Prop
  | beyond {position pending f} :
      program.size ≤ position → Round program c (position :: pending) f pending f
  | again {position pending f} (inside : position < program.size) :
      c ∈ f.seen[position] → Round program c (position :: pending) f pending f
  | enter {position pending f} (inside : position < program.size) :
      c ∉ f.seen[position] → program[position] ≠ .accept →
      Round program c (position :: pending) f (program[position].targets ++ pending)
        (f.enter program[position] position inside c)

/-- So many rounds, one after another. -/
inductive Rounds (program : Program) (c : Context) :
    Nat → List Nat → Frontier program.size → List Nat → Frontier program.size → Prop
  | none {pending f} : Rounds program c 0 pending f pending f
  | next {n pending pending' pending'' f f' f''} :
      Round program c pending f pending' f' → Rounds program c n pending' f' pending'' f'' →
      Rounds program c (n + 1) pending f pending'' f''

/-- The first of the pending positions is the end of the pattern, and the context has not been
there. -/
def AtEnd (program : Program) (c : Context) (pending : List Nat) (f : Frontier program.size) :
    Prop :=
  ∃ position rest, ∃ inside : position < program.size,
    pending = position :: rest ∧ c ∉ f.seen[position] ∧ program[position] = .accept

/-- What a search in the context `c₀` comes to in its closures: the context of a closure, its
pending positions and the frontier that it has so far. -/
inductive Closing (program : Program) (c₀ : Context) (tokens : List Token) :
    Context → List Nat → Frontier program.size → Prop
  | fresh {i running rest} :
      Searching program c₀ tokens i running rest → Closing program c₀ tokens c₀ [0] running
  | tested {i running rest token closed before thread after next p} :
      Searching program c₀ tokens i running (token :: rest) →
      program.close c₀ [0] running = some closed →
      closed.threads.toList = before ++ thread :: after →
      program.advance token before .empty = .ok next →
      program[thread.position]? = some (.test p) → (p.test token thread.context).1 = true →
      Closing program c₀ tokens (p.test token thread.context).2 [thread.position + 1] next
  | round {c pending f pending' f'} :
      Closing program c₀ tokens c pending f → Round program c pending f pending' f' →
      Closing program c₀ tokens c pending' f'

variable {program : Program} {c : Context} {n : Nat} {pending pending' : List Nat}
  {f f' next : Frontier program.size}

theorem round_of_step {position : Nat} {step : Step} (inside : position < program.size)
    (new : c ∉ f.seen[position]) (here : program[position] = step) (goesOn : step ≠ .accept) :
    program.Round c (position :: pending) f (step.targets ++ pending)
      (f.enter step position inside c) := by
  subst here
  exact .enter inside new goesOn

/-- The rounds of a closure end, with nothing pending or at the end of the pattern. -/
theorem exists_rounds (program : Program) (c : Context) (pending : List Nat)
    (f : Frontier program.size) :
    ∃ n pending' f', program.Rounds c n pending f pending' f' ∧
      (pending' = [] ∧ program.close c pending f = some f' ∨
        program.AtEnd c pending' f' ∧ program.close c pending f = none) := by
  fun_induction Program.close program c pending f with
  | case1 f => exact ⟨0, [], f, .none, .inl ⟨rfl, rfl⟩⟩
  | case2 position pending f inside old ih =>
    obtain ⟨n, pending', f', rounds, ends⟩ := ih
    exact ⟨n + 1, pending', f', .next (.again inside old) rounds, ends⟩
  | case3 position pending f inside new step =>
    exact ⟨0, _, f, .none, .inr ⟨⟨position, pending, inside, rfl, new, step⟩, rfl⟩⟩
  | case4 position pending f inside new target step ih
  | case5 position pending f inside new first second step ih
  | case6 position pending f inside new p step ih =>
    obtain ⟨n, pending', f', rounds, ends⟩ := ih
    exact ⟨n + 1, pending', f', .next (round_of_step inside new step (by simp)) rounds, ends⟩
  | case7 position pending f outside ih =>
    obtain ⟨n, pending', f', rounds, ends⟩ := ih
    exact ⟨n + 1, pending', f', .next (.beyond (Nat.not_lt.mp outside)) rounds, ends⟩

theorem rounds_of_close (closed : program.close c pending f = some next) :
    ∃ n, program.Rounds c n pending f [] next := by
  obtain ⟨n, pending', f', rounds, ⟨rfl, ends⟩ | ⟨-, ends⟩⟩ := exists_rounds program c pending f
  · obtain rfl := Option.some.inj (closed.symm.trans ends)
    exact ⟨n, rounds⟩
  · exact nomatch closed.symm.trans ends

theorem rounds_of_close_none (closed : program.close c pending f = none) :
    ∃ n pending' f', program.Rounds c n pending f pending' f' ∧ program.AtEnd c pending' f' := by
  obtain ⟨n, pending', f', rounds, ⟨-, ends⟩ | ⟨atEnd, -⟩⟩ := exists_rounds program c pending f
  · exact nomatch closed.symm.trans ends
  · exact ⟨n, pending', f', rounds, atEnd⟩

/-- A round takes one position off the pending ones, and where it adds two, the context has one
position less to enter. -/
theorem Round.decreases (round : program.Round c pending f pending' f') :
    2 * f'.unseen c + pending'.length < 2 * f.unseen c + pending.length := by
  cases round with
  | beyond | again =>
    rw [List.length_cons]
    omega
  | @enter position pending f inside new =>
    have fewer : (f.enter program[position] position inside c).unseen c < f.unseen c :=
      Frontier.unseen_enter_lt _ new
    have added := program[position].length_targets
    rw [List.length_append, List.length_cons]
    omega

theorem Rounds.le (rounds : program.Rounds c n pending f pending' f') :
    n + (2 * f'.unseen c + pending'.length) ≤ 2 * f.unseen c + pending.length := by
  induction rounds with
  | none => omega
  | next round _ ih =>
    have := round.decreases
    omega

/-- Whatever the frontier is, a closure from one position takes no more rounds than this. -/
theorem Rounds.bound {position : Nat}
    (rounds : program.Rounds c n [position] f pending f') : n ≤ 2 * program.size + 1 := by
  have := rounds.le
  have := f.unseen_le c
  rw [List.length_singleton] at *
  omega

variable {c₀ : Context} {tokens : List Token} {Holds : Nat → Context → Prop}

theorem moves_of_mem_targets {position target : Nat} (inside : position < program.size)
    (member : target ∈ program[position].targets) :
    ∃ choice, program.Moves position choice target := by
  have step : program[position]? = some program[position] := Array.getElem?_eq_getElem inside
  generalize program[position] = here at member step
  cases here with
  | test | accept => cases member
  | jump other =>
    obtain rfl := List.mem_singleton.mp member
    exact ⟨_, .jump step⟩
  | split first second =>
    rcases List.mem_cons.mp member with rfl | last
    · exact ⟨_, .first step⟩
    · obtain rfl := List.mem_singleton.mp last
      exact ⟨_, .second step⟩

theorem Moves.mem_targets {position target : Nat} {choice : List Bool}
    (moves : program.Moves position choice target) :
    ∃ step, program[position]? = some step ∧ target ∈ step.targets := by
  cases moves with
  | jump step | first step | second step => exact ⟨_, step, by simp [Step.targets]⟩

theorem Round.waiting (round : program.Round c pending f pending' f') (keeps : program.Keeps Holds)
    (holds : ∀ position ∈ pending, Holds position c)
    (waiting : program.Waiting Holds f.threads.toList) :
    (∀ position ∈ pending', Holds position c) ∧ program.Waiting Holds f'.threads.toList := by
  cases round with
  | beyond | again => exact ⟨fun p later => holds p (List.mem_cons_of_mem _ later), waiting⟩
  | @enter position rest f inside new goesOn =>
    obtain ⟨here, later⟩ := List.forall_mem_cons.mp holds
    refine ⟨fun p member => ?_, fun thread member => ?_⟩
    · rcases List.mem_append.mp member with target | old
      · obtain ⟨choice, moves⟩ := moves_of_mem_targets inside target
        exact keeps.move moves here
      · exact later p old
    · rcases Frontier.mem_threads_enter member with old | ⟨test, rfl⟩
      · exact waiting thread old
      · obtain ⟨p, test⟩ := Step.isTest_iff.mp test
        exact ⟨⟨p, Array.getElem?_eq_some_iff.mpr ⟨inside, test⟩⟩, here⟩

/-- What the steps of a program keep, holds of the positions that come to be pending in a search and
of those at which threads wait. -/
theorem Closing.waiting (closing : program.Closing c₀ tokens c pending f)
    (keeps : program.Keeps Holds) (starts : Holds 0 c₀) :
    (∀ position ∈ pending, Holds position c) ∧ program.Waiting Holds f.threads.toList := by
  induction closing with
  | fresh searching =>
    exact ⟨by simpa using starts,
      (searching.waitingAt (keeps.keepsAt tokens) fun _ => starts).2⟩
  | @tested _ _ _ token closed before thread after next p searching close split advanced step
      accepts =>
    obtain ⟨-, running⟩ := searching.waitingAt (keeps.keepsAt tokens) fun _ => starts
    have waiting := keeps.close (by simpa using starts) running close
    rw [split] at waiting
    obtain ⟨moving, others⟩ := List.forall_mem_append.mp waiting
    obtain ⟨⟨-, here⟩, -⟩ := List.forall_mem_cons.mp others
    refine ⟨?_, keeps.advance moving (waiting_empty program) advanced⟩
    simpa using keeps.test step here accepts
  | round _ round ih => exact round.waiting keeps ih.1 ih.2

/-- What holds of a frontier goes on to hold with each round. -/
def KeptByRounds (program : Program) (Good : Frontier program.size → Prop) : Prop :=
  ∀ {c pending f pending' f'}, program.Round c pending f pending' f' → Good f → Good f'

variable {Good : Frontier program.size → Prop}

theorem Rounds.kept (rounds : program.Rounds c n pending f pending' f')
    (kept : program.KeptByRounds Good) (good : Good f) : Good f' := by
  induction rounds with
  | none => exact good
  | next round _ ih => exact ih (kept round good)

theorem KeptByRounds.close (kept : program.KeptByRounds Good) (good : Good f)
    (closed : program.close c pending f = some next) : Good next := by
  obtain ⟨n, rounds⟩ := rounds_of_close closed
  exact rounds.kept kept good

theorem KeptByRounds.advance (kept : program.KeptByRounds Good) {token : Token}
    {threads : List Thread} (good : Good f)
    (advanced : program.advance token threads f = .ok next) : Good next := by
  induction threads generalizing f with
  | nil =>
    obtain rfl := Except.ok.inj advanced
    exact good
  | cons thread others ih =>
    rw [Program.advance] at advanced
    split at advanced
    · dsimp only at advanced
      split at advanced
      · split at advanced
        · next closed => exact ih (kept.close good closed) advanced
        · cases advanced
      · exact ih good advanced
    · exact ih good advanced

theorem Searching.kept {i : Nat} {running : Frontier program.size} {rest : List Token}
    (searching : program.Searching c₀ tokens i running rest) (kept : program.KeptByRounds Good)
    (good : Good .empty) : Good running := by
  cases searching with
  | start => exact good
  | next _ _ advanced => exact kept.advance good advanced

/-- What rounds keep, holds of all frontiers of a search. -/
theorem Closing.kept (closing : program.Closing c₀ tokens c pending f)
    (kept : program.KeptByRounds Good) (good : Good .empty) : Good f := by
  induction closing with
  | fresh searching => exact searching.kept kept good
  | tested _ _ _ advanced => exact kept.advance good advanced
  | round _ round ih => exact kept round ih

end Program

end MutantSieve
