import MutantSieve.Proofs.Pattern.Run
import Mathlib.Data.Finset.Card
import Mathlib.Data.Finset.Range
import Mathlib.Data.List.Lex

namespace MutantSieve.Program

theorem unbeen_insert_lt {size position : Nat} {been : Finset Nat} (inside : position < size)
    (new : position ∉ been) :
    (Finset.range size \ insert position been).card < (Finset.range size \ been).card := by
  apply Finset.card_lt_card
  refine ⟨Finset.sdiff_subset_sdiff (Finset.Subset.refl _) (Finset.subset_insert ..), fun le => ?_⟩
  have member : position ∈ Finset.range size \ been := by simp [inside, new]
  simpa using le member

/-- The first run from a position that ends at the offset `goal` and comes to no position twice
without consuming a token, nor before that to one in `been`: its choices and its last context. -/
def firstRun (program : Program) (tokens : List Token) (goal : Nat) (been : Finset Nat)
    (position i : Nat) (c : Context) : Option (List Bool × Context) :=
  if inside : position < program.size then
    if position ∈ been then none
    else
      match program[position] with
      | .accept => if i = goal then some ([], c) else none
      | .jump target => program.firstRun tokens goal (insert position been) target i c
      | .split first second =>
        ((program.firstRun tokens goal (insert position been) first i c).map
          fun run => (false :: run.1, run.2)).or
        ((program.firstRun tokens goal (insert position been) second i c).map
          fun run => (true :: run.1, run.2))
      | .test p =>
        if more : i < tokens.length then
          if (p.test tokens[i] c).1 then
            program.firstRun tokens goal ∅ (position + 1) (i + 1) (p.test tokens[i] c).2
          else none
        else none
  else none
termination_by (tokens.length - i, (Finset.range program.size \ been).card)
decreasing_by
  · exact Prod.Lex.right _ (unbeen_insert_lt inside ‹_›)
  · exact Prod.Lex.right _ (unbeen_insert_lt inside ‹_›)
  · exact Prod.Lex.right _ (unbeen_insert_lt inside ‹_›)
  · exact Prod.Lex.left _ _ (by omega)

variable {program : Program} {tokens : List Token} {goal position i : Nat} {c d : Context}
  {been : Finset Nat} {choices : List Bool} {places : List (Nat × Nat)}

/-- No place occurs twice, and none of the excluded positions at the offset. -/
def Avoids (been : Finset Nat) (i : Nat) (places : List (Nat × Nat)) : Prop :=
  places.Nodup ∧ ∀ p ∈ been, (p, i) ∉ places

theorem avoids_empty : Avoids ∅ i places ↔ places.Nodup := by
  simp [Avoids]

theorem avoids_cons : Avoids been i ((position, i) :: places) ↔
    position ∉ been ∧ Avoids (insert position been) i places := by
  simp only [Avoids, List.nodup_cons, List.mem_cons, Finset.mem_insert, not_or, Prod.mk.injEq]
  grind

theorem avoids_cons_of_later (later : ∀ place ∈ places, i < place.2) :
    Avoids been i ((position, i) :: places) ↔
      position ∉ been ∧ Avoids ∅ (i + 1) places := by
  have absent (p : Nat) : (p, i) ∉ places := fun member => Nat.lt_irrefl _ (later _ member)
  simp only [Avoids, List.nodup_cons, List.mem_cons, not_or, Prod.mk.injEq]
  grind

/-- What `firstRun` finds is a run as described. -/
theorem firstRun_sound
    (found : program.firstRun tokens goal been position i c = some (choices, d)) :
    ∃ places, program.Run tokens position i c choices places goal d ∧ Avoids been i places := by
  fun_induction firstRun program tokens goal been position i c generalizing choices d with
  | case1 | case3 | case7 | case8 | case9 => simp at found
  | case2 been position c inside new step =>
    obtain ⟨rfl, rfl⟩ := Prod.mk.inj (Option.some.inj found)
    exact ⟨_, .accept (Array.getElem?_eq_some_iff.mpr ⟨inside, step⟩),
      avoids_cons.mpr ⟨new, by simp [Avoids]⟩⟩
  | case4 been position i c inside new target step ih =>
    obtain ⟨places, run, avoids⟩ := ih found
    exact ⟨_, .move (.jump (Array.getElem?_eq_some_iff.mpr ⟨inside, step⟩)) run,
      avoids_cons.mpr ⟨new, avoids⟩⟩
  | case5 been position i c inside new first second step ihFirst ihSecond =>
    have split := Array.getElem?_eq_some_iff.mpr ⟨inside, step⟩
    rcases Option.or_eq_some_iff.mp found with inFirst | ⟨-, inSecond⟩
    · obtain ⟨⟨made, last⟩, inner, same⟩ := Option.map_eq_some_iff.mp inFirst
      obtain ⟨rfl, rfl⟩ := Prod.mk.inj same
      obtain ⟨places, run, avoids⟩ := ihFirst inner
      exact ⟨_, .move (.first split) run, avoids_cons.mpr ⟨new, avoids⟩⟩
    · obtain ⟨⟨made, last⟩, inner, same⟩ := Option.map_eq_some_iff.mp inSecond
      obtain ⟨rfl, rfl⟩ := Prod.mk.inj same
      obtain ⟨places, run, avoids⟩ := ihSecond inner
      exact ⟨_, .move (.second split) run, avoids_cons.mpr ⟨new, avoids⟩⟩
  | case6 been position i c inside new p step more accepts ih =>
    obtain ⟨places, run, avoids⟩ := ih found
    exact ⟨_, .test (Array.getElem?_eq_some_iff.mpr ⟨inside, step⟩)
      (List.getElem?_eq_getElem more) (Prod.ext accepts rfl) run,
      (avoids_cons_of_later fun _ member => run.le_of_mem member).mpr ⟨new, avoids⟩⟩

theorem firstRun_accept (new : position ∉ been) (step : program[position]? = some .accept) :
    program.firstRun tokens goal been position i c = if i = goal then some ([], c) else none := by
  obtain ⟨inside, step⟩ := Array.getElem?_eq_some_iff.mp step
  rw [firstRun, dif_pos inside, if_neg new]
  simp only [step]

theorem firstRun_jump {target : Nat} (new : position ∉ been)
    (step : program[position]? = some (.jump target)) :
    program.firstRun tokens goal been position i c =
      program.firstRun tokens goal (insert position been) target i c := by
  obtain ⟨inside, step⟩ := Array.getElem?_eq_some_iff.mp step
  rw [firstRun, dif_pos inside, if_neg new]
  simp only [step]

theorem firstRun_split {first second : Nat} (new : position ∉ been)
    (step : program[position]? = some (.split first second)) :
    program.firstRun tokens goal been position i c =
      ((program.firstRun tokens goal (insert position been) first i c).map
        fun run => (false :: run.1, run.2)).or
      ((program.firstRun tokens goal (insert position been) second i c).map
        fun run => (true :: run.1, run.2)) := by
  obtain ⟨inside, step⟩ := Array.getElem?_eq_some_iff.mp step
  rw [firstRun, dif_pos inside, if_neg new]
  simp only [step]

theorem firstRun_test {p : Predicate} {token : Token} (new : position ∉ been)
    (step : program[position]? = some (.test p)) (here : tokens[i]? = some token) :
    program.firstRun tokens goal been position i c =
      if (p.test token c).1 then
        program.firstRun tokens goal ∅ (position + 1) (i + 1) (p.test token c).2
      else none := by
  obtain ⟨inside, step⟩ := Array.getElem?_eq_some_iff.mp step
  obtain ⟨more, rfl⟩ := List.getElem?_eq_some_iff.mp here
  rw [firstRun, dif_pos inside, if_neg new]
  simp only [step, more, dite_true]

/-- Every such run that ends at the offset comes after the one that `firstRun` finds. -/
theorem firstRun_le (run : program.Run tokens position i c choices places goal d)
    (avoids : Avoids been i places) :
    ∃ choices' d', program.firstRun tokens goal been position i c = some (choices', d') ∧
      choices' ≤ choices := by
  induction run generalizing been with
  | accept ends =>
    have new := (avoids_cons.mp avoids).1
    exact ⟨[], _, by rw [firstRun_accept new ends, if_pos rfl], le_rfl⟩
  | @move position target i k c d _ _ _ moves _ ih =>
    obtain ⟨new, avoids⟩ := avoids_cons.mp avoids
    obtain ⟨choices', d', found, le⟩ := ih avoids
    cases moves with
    | jump jump => exact ⟨choices', d', by rw [firstRun_jump new jump, found], le⟩
    | first split =>
      exact ⟨false :: choices', d', by simp [firstRun_split new split, found],
        List.cons_le_cons false le⟩
    | @second first second split =>
      rw [firstRun_split new split, found]
      cases earlier : program.firstRun tokens k (insert position been) first i c with
      | none => exact ⟨true :: choices', d', rfl, List.cons_le_cons true le⟩
      | some other => exact ⟨_, _, rfl, le_of_lt (List.Lex.rel Bool.false_lt_true)⟩
  | test tests here accepts rest ih =>
    obtain ⟨new, avoids⟩ := (avoids_cons_of_later fun _ member => rest.le_of_mem member).mp avoids
    obtain ⟨choices', d', found, le⟩ := ih avoids
    exact ⟨choices', d', by simp only [firstRun_test new tests here, accepts, if_true, found], le⟩

/-- The context in which the first such run ends. -/
def ending (program : Program) (tokens : List Token) (goal : Nat) (been : Finset Nat)
    (position i : Nat) (c : Context) : Option Context :=
  (program.firstRun tokens goal been position i c).map (·.2)

theorem ending_eq_none_iff : program.ending tokens goal been position i c = none ↔
    ∀ choices places d, program.Run tokens position i c choices places goal d →
      ¬ Avoids been i places := by
  rw [ending, Option.map_eq_none_iff]
  constructor
  · intro none choices places d run avoids
    obtain ⟨_, _, found, _⟩ := firstRun_le run avoids
    simp [none] at found
  · intro noRun
    refine Option.eq_none_iff_forall_ne_some.mpr fun found same => ?_
    obtain ⟨places, run, avoids⟩ := firstRun_sound same
    exact noRun _ places _ run avoids

theorem ending_of_mem (old : position ∈ been) :
    program.ending tokens goal been position i c = none := by
  refine ending_eq_none_iff.mpr fun _ places _ run avoids => ?_
  obtain ⟨_, rfl⟩ := run.starts
  exact (avoids_cons.mp avoids).1 old

theorem ending_of_lt (before : goal < i) :
    program.ending tokens goal been position i c = none :=
  ending_eq_none_iff.mpr fun _ _ _ run _ => Nat.not_lt.mpr run.le before

theorem ending_of_size_le (outside : program.size ≤ position) :
    program.ending tokens goal been position i c = none := by
  rw [ending, firstRun, dif_neg (Nat.not_lt.mpr outside)]
  rfl

theorem ending_accept (new : position ∉ been) (step : program[position]? = some .accept) :
    program.ending tokens goal been position i c = if i = goal then some c else none := by
  rw [ending, firstRun_accept new step]
  split <;> rfl

theorem ending_jump {target : Nat} (new : position ∉ been)
    (step : program[position]? = some (.jump target)) :
    program.ending tokens goal been position i c =
      program.ending tokens goal (insert position been) target i c := by
  rw [ending, firstRun_jump new step, ending]

theorem ending_split {first second : Nat} (new : position ∉ been)
    (step : program[position]? = some (.split first second)) :
    program.ending tokens goal been position i c =
      (program.ending tokens goal (insert position been) first i c).or
        (program.ending tokens goal (insert position been) second i c) := by
  rw [ending, firstRun_split new step, ending, ending, Option.map_or, Option.map_map,
    Option.map_map]
  rfl

theorem ending_test {p : Predicate} {token : Token} (new : position ∉ been)
    (step : program[position]? = some (.test p)) (here : tokens[i]? = some token) :
    program.ending tokens goal been position i c =
      if (p.test token c).1 then
        program.ending tokens goal ∅ (position + 1) (i + 1) (p.test token c).2
      else none := by
  rw [ending, firstRun_test new step here]
  split <;> rfl

/-- A run that waits at a test ends neither before the next token nor without one. -/
theorem ending_test_of_le {p : Predicate} (step : program[position]? = some (.test p))
    (stuck : goal ≤ i ∨ tokens.length ≤ i) :
    program.ending tokens goal been position i c = none := by
  refine ending_eq_none_iff.mpr fun _ _ _ run _ => ?_
  cases run with
  | accept ends => simp [step] at ends
  | move moves => exact absurd step moves.ne_test
  | test _ here _ rest =>
    have := rest.le
    have := (List.getElem?_eq_some_iff.mp here).1
    omega

theorem Avoids.mono {been' : Finset Nat} (avoids : Avoids been' i places)
    (within : been ⊆ been') : Avoids been i places :=
  ⟨avoids.1, fun p old => avoids.2 p (within old)⟩

/-- The first run depends on the excluded positions only through the runs that avoid them. -/
theorem firstRun_congr {been' : Finset Nat}
    (same : ∀ {choices places d}, program.Run tokens position i c choices places goal d →
      (Avoids been i places ↔ Avoids been' i places)) :
    program.firstRun tokens goal been position i c =
      program.firstRun tokens goal been' position i c := by
  have transfer {been been' : Finset Nat}
      (same : ∀ {choices places d}, program.Run tokens position i c choices places goal d →
        (Avoids been i places ↔ Avoids been' i places)) {choices d}
      (found : program.firstRun tokens goal been position i c = some (choices, d)) :
      program.firstRun tokens goal been' position i c = some (choices, d) := by
    obtain ⟨places, run, avoids⟩ := firstRun_sound found
    obtain ⟨choices', d', found', le⟩ := firstRun_le run ((same run).mp avoids)
    obtain ⟨places', run', avoids'⟩ := firstRun_sound found'
    obtain ⟨_, _, again, ge⟩ := firstRun_le run' ((same run').mpr avoids')
    obtain ⟨rfl, rfl⟩ := Prod.mk.inj (Option.some.inj (found.symm.trans again))
    obtain rfl := le_antisymm le ge
    obtain ⟨-, -, rfl⟩ := run.unique run' rfl
    exact found'
  exact Option.ext fun _ => ⟨transfer same, transfer fun run => (same run).symm⟩

/-- Where a program tests a token, nothing depends on where the run has been. -/
theorem ending_test_been {p : Predicate} (new : position ∉ been)
    (step : program[position]? = some (.test p)) :
    program.ending tokens goal been position i c = program.ending tokens goal ∅ position i c := by
  refine congrArg (Option.map _) (firstRun_congr fun run => ?_)
  cases run with
  | accept ends => simp [step] at ends
  | move moves => exact absurd step moves.ne_test
  | test _ _ _ rest =>
    have later (place : Nat × Nat) : place ∈ _ → i < place.2 := rest.le_of_mem
    simp [avoids_cons_of_later later, new]

/-- Positions from which no run ends at the offset need not be avoided: no run that ends there comes
to them. -/
theorem ending_of_dead {been' : Finset Nat} (within : been ⊆ been')
    (dead : ∀ p ∈ been', p ∉ been → program.ending tokens goal been p i c = none) :
    program.ending tokens goal been' position i c =
      program.ending tokens goal been position i c := by
  refine congrArg (Option.map _) (firstRun_congr fun run => ?_)
  refine ⟨fun avoids => avoids.mono within, fun avoids => ⟨avoids.1, fun p old member => ?_⟩⟩
  by_cases excluded : p ∈ been
  · exact avoids.2 p excluded member
  · obtain ⟨_, places', resumed, suffix⟩ := run.resume member
    exact ending_eq_none_iff.mp (dead p old excluded) _ places' _ resumed
      ⟨avoids.1.sublist suffix.sublist, fun p excluded member =>
        avoids.2 p excluded (suffix.mem member)⟩

end MutantSieve.Program
