import MutantSieve.Proofs.Pattern.Lowering
import MutantSieve.Proofs.Pattern.Rounds

namespace MutantSieve

namespace Program

/-- The clauses take up the positions of a program from `start` on, up to `next`. The split of an
alternation leads to the first position of each side, and the jump between the sides to the one
behind both. The split of a repetition leads to the position behind it and to the first one of the
body, and the jump at the end of the body back to the split. -/
inductive Lays (program : Program) : Query → (start next : Nat) → Prop
  | done {start} : Lays program .done start start
  | accept {p rest start next} :
      program[start]? = some (.test p) → Lays program rest (start + 1) next →
      Lays program (.accept p rest) start next
  | reject {p rest start next} :
      program[start]? = some (.test (.negate p)) → Lays program rest (start + 1) next →
      Lays program (.reject p rest) start next
  | either {left right rest start jump behind next} :
      program[start]? = some (.split (start + 1) (jump + 1)) → Lays program left (start + 1) jump →
      program[jump]? = some (.jump behind) → Lays program right (jump + 1) behind →
      Lays program rest behind next → Lays program (.either left right rest) start next
  | repeated {body rest start jump next} :
      program[start]? = some (.split (jump + 1) (start + 1)) → Lays program body (start + 1) jump →
      program[jump]? = some (.jump start) → Lays program rest (jump + 1) next →
      Lays program (.repeated body rest) start next

/-- The step at a position is not the end of the pattern, and goes on at positions up to a bound. -/
def GoesOn (program : Program) (bound position : Nat) : Prop :=
  ∃ step, program[position]? = some step ∧ step ≠ .accept ∧ ∀ target ∈ step.targets, target ≤ bound

variable {program : Program} {q : Query} {start next position bound bound' : Nat}

theorem GoesOn.mono (goesOn : program.GoesOn bound position) (within : bound ≤ bound') :
    program.GoesOn bound' position := by
  obtain ⟨step, here, notEnd, targets⟩ := goesOn
  exact ⟨step, here, notEnd, fun target member => Nat.le_trans (targets target member) within⟩

theorem goesOn_test {p : Predicate} (here : program[position]? = some (.test p)) :
    program.GoesOn bound position :=
  ⟨_, here, nofun, nofun⟩

theorem goesOn_jump {target : Nat} (here : program[position]? = some (.jump target))
    (within : target ≤ bound) : program.GoesOn bound position :=
  ⟨_, here, nofun, by simpa [Step.targets] using within⟩

theorem goesOn_split {first second : Nat} (here : program[position]? = some (.split first second))
    (withinFirst : first ≤ bound) (withinSecond : second ≤ bound) :
    program.GoesOn bound position :=
  ⟨_, here, nofun, by simpa [Step.targets] using ⟨withinFirst, withinSecond⟩⟩

theorem Lays.le (lays : program.Lays q start next) : start ≤ next := by
  induction lays <;> omega

/-- No step of the clauses leads further than to the position behind them. -/
theorem Lays.goesOn (lays : program.Lays q start next) (behindStart : start ≤ position)
    (beforeNext : position < next) : program.GoesOn next position := by
  induction lays with
  | done => omega
  | accept here _ ih | reject here _ ih =>
    rcases Nat.eq_or_lt_of_le behindStart with rfl | later
    · exact goesOn_test here
    · exact ih later beforeNext
  | @either _ _ _ start jump behind next splits left jumps right rest ihLeft ihRight ihRest =>
    have := left.le
    have := right.le
    have := rest.le
    rcases Nat.eq_or_lt_of_le behindStart with rfl | later
    · exact goesOn_split splits (by omega) (by omega)
    rcases Nat.lt_trichotomy position jump with before | rfl | behindJump
    · exact (ihLeft later before).mono (by omega)
    · exact goesOn_jump jumps (by omega)
    rcases Nat.lt_or_ge position behind with before | behindBoth
    · exact (ihRight behindJump before).mono (by omega)
    · exact ihRest behindBoth beforeNext
  | @repeated _ _ start jump next splits body jumps rest ihBody ihRest =>
    have := body.le
    have := rest.le
    rcases Nat.eq_or_lt_of_le behindStart with rfl | later
    · exact goesOn_split splits (by omega) (by omega)
    rcases Nat.lt_trichotomy position jump with before | rfl | behindJump
    · exact (ihBody later before).mono (by omega)
    · exact goesOn_jump jumps (by omega)
    · exact ihRest behindJump beforeNext

end Program

namespace Query

open Program

variable {program : Program} {q : Query} {start : Nat}

theorem lays_of_contains (contains : program.Contains start (q.code start)) :
    program.Lays q start (start + q.steps) := by
  induction q generalizing start with
  | done => exact .done
  | accept p rest ih =>
    obtain ⟨step, contains⟩ := contains_cons.mp contains
    rw [steps, ← Nat.add_assoc, Nat.add_right_comm]
    exact .accept step (ih contains)
  | reject p rest ih =>
    obtain ⟨step, contains⟩ := contains_cons.mp contains
    rw [steps, ← Nat.add_assoc, Nat.add_right_comm]
    exact .reject step (ih contains)
  | either left right rest ihLeft ihRight ih =>
    obtain ⟨split, onLeft, jump, onRight, behind⟩ := contains_either.mp contains
    rw [behind_either]
    have second : start + left.steps + 2 = start + 1 + left.steps + 1 := by omega
    rw [second] at split jump onRight behind ⊢
    exact .either split (ihLeft onLeft) jump (ihRight onRight) (ih behind)
  | repeated body rest ihBody ih =>
    obtain ⟨split, inBody, jump, behind⟩ := contains_repeated.mp contains
    rw [behind_repeated]
    have next : start + body.steps + 2 = start + 1 + body.steps + 1 := by omega
    rw [next] at split behind ⊢
    exact .repeated split (ihBody inBody) jump (ih behind)

theorem lays_program (q : Query) : q.program.Lays q 0 q.steps := by
  have lays := lays_of_contains (contains_program q)
  rwa [Nat.zero_add] at lays

theorem size_program (q : Query) : q.program.size = q.steps + 1 := by
  simp [Query.program, length_code]

theorem accept_iff (q : Query) {position : Nat} :
    q.program[position]? = some .accept ↔ position = q.steps := by
  constructor
  · intro accept
    have inside := (Array.getElem?_eq_some_iff.mp accept).1
    rw [size_program] at inside
    by_contra other
    obtain ⟨step, here, notEnd, -⟩ := (lays_program q).goesOn (Nat.zero_le position) (by omega)
    exact notEnd (Option.some.inj (here.symm.trans accept))
  · rintro rfl
    have ends := program_end q
    rwa [Nat.zero_add] at ends

theorem target_le (q : Query) {position target : Nat} {step : Step}
    (here : q.program[position]? = some step) (member : target ∈ step.targets) :
    target ≤ q.steps := by
  have inside := (Array.getElem?_eq_some_iff.mp here).1
  rw [size_program] at inside
  rcases Nat.eq_or_lt_of_le (Nat.le_of_lt_succ inside) with rfl | before
  · rw [(accept_iff q).mpr rfl] at here
    obtain rfl := Option.some.inj here
    cases member
  · obtain ⟨step', here', -, targets⟩ := (lays_program q).goesOn (Nat.zero_le position) before
    obtain rfl := Option.some.inj (here.symm.trans here')
    exact targets target member

theorem lt_of_test (q : Query) {position : Nat} {p : Predicate}
    (test : q.program[position]? = some (.test p)) : position < q.steps := by
  have inside := (Array.getElem?_eq_some_iff.mp test).1
  rw [size_program] at inside
  refine Nat.lt_of_le_of_ne (Nat.le_of_lt_succ inside) fun last => ?_
  exact nomatch test.symm.trans ((accept_iff q).mpr last)

theorem keeps_inside (q : Query) : q.program.Keeps fun position _ => position < q.program.size where
  move moves _ := by
    obtain ⟨step, here, member⟩ := moves.mem_targets
    have := target_le q here member
    rw [size_program]
    omega
  test test _ _ := by
    have := lt_of_test q test
    rw [size_program]
    omega

/-- Writes the steps of a query behind others. A split or jump is written before its targets are
known, with targets near by, and again when the steps between are there. -/
def emit : Query → List Step → List Step
  | done, written => written
  | accept p rest, written => rest.emit (written ++ [.test p])
  | reject p rest, written => rest.emit (written ++ [.test (.negate p)])
  | either left right rest, written =>
    let split := written.length
    let sided := left.emit (written ++ [.split (split + 1) (split + 1)])
    let jump := sided.length
    let jumping := sided ++ [.jump jump]
    let both := right.emit (jumping.set split (.split (split + 1) jumping.length))
    rest.emit (both.set jump (.jump both.length))
  | repeated body rest, written =>
    let split := written.length
    let looping := body.emit (written ++ [.split (split + 1) (split + 1)]) ++ [.jump split]
    rest.emit (looping.set split (.split looping.length (split + 1)))

/-- The step behind so many others is written again. -/
theorem set_behind {before after : List Step} {old new : Step} {position : Nat}
    (here : before.length = position) :
    (before ++ old :: after).set position new = before ++ new :: after := by
  subst here
  simp

/-- Writing the steps of a query gives its code. -/
theorem emit_eq (q : Query) (written : List Step) :
    q.emit written = written ++ q.code written.length := by
  induction q generalizing written with
  | done => exact (List.append_nil _).symm
  | accept p rest ih | reject p rest ih =>
    rw [emit, ih, code, List.length_append, List.length_singleton, List.append_assoc,
      List.singleton_append]
  | either left right rest ihLeft ihRight ih =>
    -- Where the sides begin does not depend on where the split and the jump lead at first.
    have sided (split : Step) : left.emit (written ++ [split]) =
        written ++ split :: left.code (written.length + 1) := by
      simp [ihLeft]
    have jump (split : Step) : (written ++ split :: left.code (written.length + 1)).length =
        written.length + left.steps + 1 := by
      simp [length_code, Nat.add_assoc]
    have second (split jump : Step) : (written ++ split :: left.code (written.length + 1) ++
        [jump]).length = written.length + left.steps + 2 := by
      simp [length_code, Nat.add_assoc]
    have next (split jump : Step) : (written ++ split :: left.code (written.length + 1) ++
          jump :: right.code (written.length + left.steps + 2)).length =
        written.length + left.steps + 2 + right.steps := by
      simp [length_code]
      omega
    simp only [emit, sided, jump, second]
    rw [List.append_assoc, List.cons_append, set_behind rfl, ← List.cons_append,
      ← List.append_assoc, ihRight, second, List.append_assoc, List.singleton_append,
      set_behind (jump _), next, ih, next, code]
    simp only [List.append_assoc, List.cons_append]
  | repeated body rest ihBody ih =>
    have looping (split jump : Step) : body.emit (written ++ [split]) ++ [jump] =
        written ++ split :: (body.code (written.length + 1) ++ [jump]) := by
      simp [ihBody]
    have next (split jump : Step) :
        (written ++ split :: (body.code (written.length + 1) ++ [jump])).length =
          written.length + body.steps + 2 := by
      simp [length_code, Nat.add_assoc]
    simp only [emit, looping, next]
    rw [set_behind rfl, ih, next, code]
    simp only [List.append_assoc, List.cons_append, List.nil_append]

/-- The program of a query is what writing its steps gives. It has the end of the pattern at its
last position and nowhere else, its splits and jumps lead to the parts of their clauses and not
beyond that position, and there is a step behind each test. So all positions that come to be pending
in a search, and all at which threads wait, are positions of the program. -/
theorem program_layout (q : Query) :
    (q.emit [] ++ [Step.accept]).toArray = q.program ∧
      ∃ last, q.program.size = last + 1 ∧ q.program.Lays q 0 last ∧
        (∀ position : Nat, q.program[position]? = some .accept ↔ position = last) ∧
        (∀ (position : Nat) (step : Step), q.program[position]? = some step →
          ∀ target ∈ step.targets, target ≤ last) ∧
        (∀ (position : Nat) p, q.program[position]? = some (.test p) → position + 1 ≤ last) ∧
        ∀ c tokens d pending f, q.program.Closing c tokens d pending f →
          (∀ position ∈ pending, position < q.program.size) ∧
            ∀ thread ∈ f.threads.toList, thread.position < q.program.size := by
  refine ⟨?_, q.steps, size_program q, lays_program q, fun _ => accept_iff q,
    fun _ _ here _ => target_le q here, fun _ _ => lt_of_test q, ?_⟩
  · rw [emit_eq, List.nil_append, program]
    rfl
  · intro c tokens d pending f closing
    have start : 0 < q.program.size := by
      rw [size_program]
      exact Nat.succ_pos _
    obtain ⟨inside, waiting⟩ := closing.waiting (keeps_inside q) start
    exact ⟨inside, fun thread member => (waiting thread member).2⟩

/-- Any number of optional instructions. A round may consume nothing. -/
def optionals : Query := repeated (either done (accept .any done) done) done

example : optionals.program =
    #[.split 5 1, .split 2 3, .jump 4, .test .any, .jump 0, .accept] := rfl

/-- The jump behind the left side, and what is pending after a round. -/
theorem program_layout_optionals :
    (∀ target ∈ [4], target ≤ 5) ∧ 3 + 1 ≤ 5 ∧
      optionals.program.Closing .empty [] .empty [5, 1]
        (Frontier.empty.visit 0 (by decide) .empty) ∧
      ∀ position ∈ [5, 1], position < 6 := by
  obtain ⟨-, last, size, -, -, targets, tests, stays⟩ := program_layout optionals
  obtain rfl : 5 = last := Nat.succ.inj size
  have closing : optionals.program.Closing .empty [] .empty [5, 1]
      (Frontier.empty.visit 0 (by decide) .empty) :=
    .round (.fresh .start) (.enter (by decide) (by decide) (by decide))
  exact ⟨targets 2 (.jump 4) rfl, tests 3 .any rfl, closing, (stays _ _ _ _ _ closing).1⟩

end Query

end MutantSieve
