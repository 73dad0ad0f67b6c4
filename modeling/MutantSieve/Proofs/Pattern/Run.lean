import MutantSieve.Pattern.Program
import Mathlib.Data.List.Nodup

namespace MutantSieve.Program

/-- A program goes on from one position to another without consuming a token. The choice at a split
is listed, `false` for the first target. -/
inductive Moves (program : Program) : Nat → List Bool → Nat → Prop
  | jump {position target} :
      program[position]? = some (.jump target) → Moves program position [] target
  | first {position first second} :
      program[position]? = some (.split first second) → Moves program position [false] first
  | second {position first second} :
      program[position]? = some (.split first second) → Moves program position [true] second

/-- A run from a position at an offset in a context to the end of the pattern, with the choices it
makes and the positions it comes to, each with its offset. -/
inductive Run (program : Program) (tokens : List Token) :
    (position : Nat) → Nat → Context → List Bool → List (Nat × Nat) → Nat → Context → Prop
  | accept {position i c} :
      program[position]? = some .accept → Run program tokens position i c [] [(position, i)] i c
  | move {position target i k c d choice choices places} :
      Moves program position choice target →
      Run program tokens target i c choices places k d →
      Run program tokens position i c (choice ++ choices) ((position, i) :: places) k d
  | test {position p token i k c c' d choices places} :
      program[position]? = some (.test p) → tokens[i]? = some token →
      p.test token c = (true, c') →
      Run program tokens (position + 1) (i + 1) c' choices places k d →
      Run program tokens position i c choices ((position, i) :: places) k d

variable {program : Program} {tokens : List Token} {position i k : Nat} {c d : Context}
  {choices : List Bool} {places : List (Nat × Nat)}

theorem Moves.ne_accept {choice : List Bool} {target : Nat}
    (moves : program.Moves position choice target) : program[position]? ≠ some .accept := by
  cases moves <;> simp_all

theorem Moves.ne_test {choice : List Bool} {target : Nat}
    (moves : program.Moves position choice target) {p : Predicate} :
    program[position]? ≠ some (.test p) := by
  cases moves <;> simp_all

theorem Moves.unique {choice choice' : List Bool} {target target' : Nat}
    (moves : program.Moves position choice target) (moves' : program.Moves position choice' target')
    {choices choices' : List Bool} (same : choice ++ choices = choice' ++ choices') :
    target = target' ∧ choices = choices' := by
  cases moves <;> cases moves' <;> simp_all

theorem Run.le (run : program.Run tokens position i c choices places k d) : i ≤ k := by
  induction run with
  | accept => exact Nat.le_refl _
  | move _ _ ih => exact ih
  | test _ _ _ _ ih => exact Nat.le_of_succ_le ih

theorem Run.le_length (run : program.Run tokens position i c choices places k d)
    (within : i ≤ tokens.length) : k ≤ tokens.length := by
  induction run with
  | accept => exact within
  | move _ _ ih => exact ih within
  | test _ here _ _ ih => exact ih (List.getElem?_eq_some_iff.mp here).1

theorem Run.le_of_mem (run : program.Run tokens position i c choices places k d)
    {place : Nat × Nat} (member : place ∈ places) : i ≤ place.2 := by
  induction run with
  | accept =>
    obtain rfl := List.mem_singleton.mp member
    exact Nat.le_refl _
  | move _ _ ih =>
    rcases List.mem_cons.mp member with rfl | later
    · exact Nat.le_refl _
    · exact ih later
  | test _ _ _ _ ih =>
    rcases List.mem_cons.mp member with rfl | later
    · exact Nat.le_refl _
    · exact Nat.le_of_succ_le (ih later)

theorem Run.starts (run : program.Run tokens position i c choices places k d) :
    ∃ rest, places = (position, i) :: rest := by
  cases run <;> exact ⟨_, rfl⟩

theorem Run.at_test {p : Predicate} (step : program[position]? = some (.test p))
    (run : program.Run tokens position i c choices places k d) :
    ∃ token c' places', tokens[i]? = some token ∧ p.test token c = (true, c') ∧
      program.Run tokens (position + 1) (i + 1) c' choices places' k d ∧
      places = (position, i) :: places' := by
  cases run with
  | accept ends => simp [step] at ends
  | move moves => exact absurd step moves.ne_test
  | test step' here accepts rest =>
    obtain rfl : p = _ := by simpa [step] using step'
    exact ⟨_, _, _, here, accepts, rest, rfl⟩

theorem Run.at_jump {target : Nat} (step : program[position]? = some (.jump target))
    (run : program.Run tokens position i c choices places k d) :
    ∃ places', program.Run tokens target i c choices places' k d ∧
      places = (position, i) :: places' := by
  cases run with
  | accept ends => simp [step] at ends
  | test tests => simp [step] at tests
  | move moves rest =>
    cases moves with
    | jump step' =>
      obtain rfl : target = _ := by simpa [step] using step'
      exact ⟨_, rest, rfl⟩
    | first split | second split => simp [step] at split

theorem Run.at_split {first second : Nat} (step : program[position]? = some (.split first second))
    (run : program.Run tokens position i c choices places k d) :
    ∃ choices' places', places = (position, i) :: places' ∧
      (choices = false :: choices' ∧ program.Run tokens first i c choices' places' k d ∨
        choices = true :: choices' ∧ program.Run tokens second i c choices' places' k d) := by
  cases run with
  | accept ends => simp [step] at ends
  | test tests => simp [step] at tests
  | move moves rest =>
    cases moves with
    | jump jump => simp [step] at jump
    | first split =>
      obtain ⟨rfl, -⟩ : first = _ ∧ second = _ := by simpa [step] using split
      exact ⟨_, _, rfl, .inl ⟨rfl, rest⟩⟩
    | second split =>
      obtain ⟨-, rfl⟩ : first = _ ∧ second = _ := by simpa [step] using split
      exact ⟨_, _, rfl, .inr ⟨rfl, rest⟩⟩

theorem Run.at_accept (step : program[position]? = some .accept)
    (run : program.Run tokens position i c choices places k d) :
    choices = [] ∧ places = [(position, i)] ∧ k = i ∧ d = c := by
  cases run with
  | accept => exact ⟨rfl, rfl, rfl, rfl⟩
  | move moves => exact absurd step moves.ne_accept
  | test tests => simp [step] at tests

/-- The choices of a run determine it. -/
theorem Run.unique (run : program.Run tokens position i c choices places k d)
    {choices' : List Bool} {places' : List (Nat × Nat)} {k' : Nat} {d' : Context}
    (other : program.Run tokens position i c choices' places' k' d') (same : choices = choices') :
    places = places' ∧ k = k' ∧ d = d' := by
  induction run generalizing choices' places' with
  | accept ends =>
    cases other with
    | accept => exact ⟨rfl, rfl, rfl⟩
    | move moves => exact absurd ends moves.ne_accept
    | test tests => simp [ends] at tests
  | move moves _ ih =>
    cases other with
    | accept ends => exact absurd ends moves.ne_accept
    | move moves' rest' =>
      obtain ⟨rfl, others⟩ := moves.unique moves' same
      obtain ⟨rfl, rfl, rfl⟩ := ih rest' others
      exact ⟨rfl, rfl, rfl⟩
    | test tests => exact absurd tests moves.ne_test
  | test tests here accepts _ ih =>
    cases other with
    | accept ends => simp [tests] at ends
    | move moves => exact absurd tests moves.ne_test
    | test tests' here' accepts' rest' =>
      obtain rfl : _ = _ := by simpa [tests] using tests'
      obtain rfl : _ = _ := by simpa [here] using here'
      obtain ⟨-, rfl⟩ := Prod.mk.inj (accepts.symm.trans accepts')
      obtain ⟨rfl, rfl, rfl⟩ := ih rest' same
      exact ⟨rfl, rfl, rfl⟩

/-- Until a run consumes a token it can be taken up at each position it has come to. -/
theorem Run.resume (run : program.Run tokens position i c choices places k d) {p : Nat}
    (member : (p, i) ∈ places) :
    ∃ choices' places', program.Run tokens p i c choices' places' k d ∧ places' <:+ places := by
  induction run with
  | accept ends =>
    obtain ⟨rfl, -⟩ := Prod.mk.inj (List.mem_singleton.mp member)
    exact ⟨_, _, .accept ends, List.suffix_refl _⟩
  | move step rest ih =>
    rcases List.mem_cons.mp member with same | later
    · obtain ⟨rfl, -⟩ := Prod.mk.inj same
      exact ⟨_, _, .move step rest, List.suffix_refl _⟩
    · obtain ⟨choices', places', resumed, suffix⟩ := ih later
      exact ⟨choices', places', resumed, suffix.trans (List.suffix_cons ..)⟩
  | test step here accepts rest _ =>
    rcases List.mem_cons.mp member with same | later
    · obtain ⟨rfl, -⟩ := Prod.mk.inj same
      exact ⟨_, _, .test step here accepts rest, List.suffix_refl _⟩
    · have := rest.le_of_mem later
      omega

/-- Cutting out what lies between two visits of a position makes a run simple. -/
theorem Run.exists_simple (run : program.Run tokens position i c choices places k d) :
    ∃ choices places, program.Run tokens position i c choices places k d ∧ places.Nodup := by
  induction run with
  | accept ends => exact ⟨_, _, .accept ends, List.nodup_singleton _⟩
  | @move position target i k c d _ _ _ step _ ih =>
    obtain ⟨choices, places, rest, simple⟩ := ih
    by_cases again : (position, i) ∈ places
    · obtain ⟨choices', places', resumed, suffix⟩ := rest.resume again
      exact ⟨choices', places', resumed, simple.sublist suffix.sublist⟩
    · exact ⟨_, _, .move step rest, List.nodup_cons.mpr ⟨again, simple⟩⟩
  | test step here accepts _ ih =>
    obtain ⟨_, _, rest, simple⟩ := ih
    refine ⟨_, _, .test step here accepts rest, List.nodup_cons.mpr ⟨fun again => ?_, simple⟩⟩
    have := rest.le_of_mem again
    omega

/-- The positions at which a program tests a token or splits, where the clauses begin. -/
def atClause (program : Program) (position : Nat) : Bool :=
  match program[position]? with
  | some (.test _) | some (.split ..) => true
  | _ => false

theorem Run.after_jump (run : program.Run tokens position i c choices places k d)
    {p target j : Nat} (step : program[p]? = some (.jump target)) (member : (p, j) ∈ places) :
    [(p, j), (target, j)] <:+: places := by
  induction run with
  | accept ends =>
    obtain ⟨rfl, rfl⟩ := Prod.mk.inj (List.mem_singleton.mp member)
    simp [ends] at step
  | move moves rest ih =>
    rcases List.mem_cons.mp member with same | later
    · obtain ⟨rfl, rfl⟩ := Prod.mk.inj same
      obtain ⟨others, rfl⟩ := rest.starts
      cases moves with
      | jump jump =>
        obtain rfl : target = _ := by simpa [step] using jump
        exact (List.prefix_append [(p, j), (target, j)] others).isInfix
      | first split | second split => simp [step] at split
    · exact (ih later).trans (List.suffix_cons ..).isInfix
  | test tests _ _ _ ih =>
    rcases List.mem_cons.mp member with same | later
    · obtain ⟨rfl, rfl⟩ := Prod.mk.inj same
      simp [step] at tests
    · exact (ih later).trans (List.suffix_cons ..).isInfix

/-- A run is simple already if it comes to no test or split twice without consuming a token: what
follows a jump, the run comes to as often as to the jump. -/
theorem Run.nodup_of_clauses (run : program.Run tokens position i c choices places k d)
    (simple : (places.filter fun place => program.atClause place.1).Nodup) : places.Nodup := by
  induction run with
  | accept => exact List.nodup_singleton _
  | @move position target i k c d _ _ places moves rest ih =>
    have others := ih (simple.sublist ((List.sublist_cons_self ..).filter _))
    refine List.nodup_cons.mpr ⟨fun again => ?_, others⟩
    cases moves with
    | jump jump =>
      obtain ⟨following, rfl⟩ := rest.starts
      obtain ⟨before, after, split⟩ := rest.after_jump jump again
      have twice : (target, i) ∈ following := by
        cases before with
        | nil => simp [← (List.cons.inj split).2]
        | cons first before => simp [← (List.cons.inj split).2]
      exact (List.nodup_cons.mp others).1 twice
    | first split | second split =>
      have clause : program.atClause position = true := by simp [atClause, split]
      rw [List.filter_cons_of_pos (by simpa using clause), List.nodup_cons] at simple
      exact simple.1 (List.mem_filter.mpr ⟨again, by simpa using clause⟩)
  | test tests _ _ rest ih =>
    have others := ih (simple.sublist ((List.sublist_cons_self ..).filter _))
    refine List.nodup_cons.mpr ⟨fun again => ?_, others⟩
    have := rest.le_of_mem again
    omega

end MutantSieve.Program
