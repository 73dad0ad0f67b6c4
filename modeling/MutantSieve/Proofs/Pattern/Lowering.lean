import MutantSieve.Proofs.Pattern.Path
import MutantSieve.Proofs.Pattern.Run

namespace MutantSieve

namespace Program

/-- The steps stand in the program from a position on. -/
def Contains (program : Program) (start : Nat) (steps : List Step) : Prop :=
  ∀ n < steps.length, program[start + n]? = steps[n]?

variable {program : Program} {start : Nat}

theorem contains_nil : program.Contains start [] :=
  fun _ inside => absurd inside (Nat.not_lt_zero _)

theorem contains_cons {step : Step} {steps : List Step} :
    program.Contains start (step :: steps) ↔
      program[start]? = some step ∧ program.Contains (start + 1) steps := by
  constructor
  · intro contains
    refine ⟨contains 0 (Nat.zero_lt_succ _), fun n inside => ?_⟩
    have later := contains (n + 1) (Nat.succ_lt_succ inside)
    rwa [show start + (n + 1) = start + 1 + n by omega] at later
  · rintro ⟨first, later⟩ n inside
    cases n with
    | zero => exact first
    | succ n =>
      rw [show start + (n + 1) = start + 1 + n by omega]
      exact later n (Nat.lt_of_succ_lt_succ inside)

theorem contains_append {before after : List Step} :
    program.Contains start (before ++ after) ↔
      program.Contains start before ∧ program.Contains (start + before.length) after := by
  induction before generalizing start with
  | nil => simp [contains_nil]
  | cons step before ih =>
    rw [List.cons_append, contains_cons, ih, contains_cons, and_assoc, List.length_cons,
      show start + 1 + before.length = start + (before.length + 1) by omega]

end Program

namespace Query

open Program

theorem behind_either (start : Nat) (left right rest : Query) :
    start + (either left right rest).steps =
      start + left.steps + 2 + right.steps + rest.steps := by
  rw [steps]
  omega

theorem behind_repeated (start : Nat) (body rest : Query) :
    start + (repeated body rest).steps = start + body.steps + 2 + rest.steps := by
  rw [steps]
  omega

variable {program : Program} {start : Nat}

theorem contains_either {left right rest : Query} :
    program.Contains start ((either left right rest).code start) ↔
      program[start]? = some (.split (start + 1) (start + left.steps + 2)) ∧
      program.Contains (start + 1) (left.code (start + 1)) ∧
      program[start + 1 + left.steps]? =
        some (.jump (start + left.steps + 2 + right.steps)) ∧
      program.Contains (start + left.steps + 2) (right.code (start + left.steps + 2)) ∧
      program.Contains (start + left.steps + 2 + right.steps)
        (rest.code (start + left.steps + 2 + right.steps)) := by
  simp only [code, List.cons_append, List.append_assoc, contains_cons, contains_append, length_code]
  rw [show start + 1 + left.steps + 1 = start + left.steps + 2 by omega]

theorem contains_repeated {body rest : Query} :
    program.Contains start ((repeated body rest).code start) ↔
      program[start]? = some (.split (start + body.steps + 2) (start + 1)) ∧
      program.Contains (start + 1) (body.code (start + 1)) ∧
      program[start + 1 + body.steps]? = some (.jump start) ∧
      program.Contains (start + body.steps + 2) (rest.code (start + body.steps + 2)) := by
  simp only [code, List.cons_append, contains_cons, contains_append, length_code]
  rw [show start + 1 + body.steps + 1 = start + body.steps + 2 by omega]

variable {tokens : List Token} {q : Query} {i j k : Nat} {c d e : Context}
  {choices choices' : List Bool} {places places' : List (Nat × Nat)}

/-- A path through the clauses, followed by a run of what stands behind their code, is a run. -/
theorem Path.run (path : Path tokens q start i c choices places j d)
    (contains : program.Contains start (q.code start))
    (behind : program.Run tokens (start + q.steps) j d choices' places' k e) :
    ∃ all, program.Run tokens start i c (choices ++ choices') all k e ∧
      (all.filter fun place => program.atClause place.1) =
        places ++ places'.filter fun place => program.atClause place.1 := by
  -- What stands behind a part of the path is the run of all that follows it.
  induction path generalizing choices' places' k e with
  | done => exact ⟨places', behind, rfl⟩
  | accept here accepts _ ih | reject here accepts _ ih =>
    obtain ⟨step, contains⟩ := contains_cons.mp contains
    rw [steps, ← Nat.add_assoc, Nat.add_right_comm] at behind
    obtain ⟨all, run, same⟩ := ih contains behind
    refine ⟨_, .test step here accepts run, ?_⟩
    rw [List.filter_cons_of_pos (by simp [atClause, step]), same, List.cons_append]
  | left _ _ ihSide ih =>
    obtain ⟨split, onLeft, jump, -, after⟩ := contains_either.mp contains
    rw [behind_either] at behind
    obtain ⟨others, next, sameRest⟩ := ih after behind
    obtain ⟨all, run, same⟩ := ihSide onLeft (.move (.jump jump) next)
    have whole := Run.move (.first split) run
    refine ⟨_, by simpa only [List.nil_append, List.cons_append, List.append_assoc] using whole, ?_⟩
    rw [List.filter_cons_of_pos (by simp [atClause, split]), same,
      List.filter_cons_of_neg (by simp [atClause, jump]), sameRest, List.cons_append,
      List.append_assoc]
  | right _ _ ihSide ih =>
    obtain ⟨split, -, -, onRight, after⟩ := contains_either.mp contains
    rw [behind_either] at behind
    obtain ⟨others, next, sameRest⟩ := ih after behind
    obtain ⟨all, run, same⟩ := ihSide onRight next
    have whole := Run.move (.second split) run
    refine ⟨_, by simpa only [List.nil_append, List.cons_append, List.append_assoc] using whole, ?_⟩
    rw [List.filter_cons_of_pos (by simp [atClause, split]), same, sameRest, List.cons_append,
      List.append_assoc]
  | leave _ ih =>
    obtain ⟨split, -, -, after⟩ := contains_repeated.mp contains
    rw [behind_repeated] at behind
    obtain ⟨all, run, same⟩ := ih after behind
    have whole := Run.move (.first split) run
    refine ⟨_, by simpa only [List.nil_append, List.cons_append] using whole, ?_⟩
    rw [List.filter_cons_of_pos (by simp [atClause, split]), same, List.cons_append]
  | round _ _ _ ihBody ih =>
    obtain ⟨split, inBody, jump, -⟩ := contains_repeated.mp contains
    obtain ⟨others, next, sameRest⟩ := ih contains behind
    obtain ⟨all, run, same⟩ := ihBody inBody (.move (.jump jump) next)
    have whole := Run.move (.second split) run
    refine ⟨_, by simpa only [List.nil_append, List.cons_append, List.append_assoc] using whole, ?_⟩
    rw [List.filter_cons_of_pos (by simp [atClause, split]), same,
      List.filter_cons_of_neg (by simp [atClause, jump]), sameRest, List.cons_append,
      List.append_assoc]

/-- A run with these choices and places goes along a path through the clauses and then on behind
their code. -/
inductive Crosses (program : Program) (tokens : List Token) (q : Query) (start i : Nat)
    (c : Context) (k : Nat) (e : Context) : List Bool → List (Nat × Nat) → Prop
  | intro {j d choices choices' along all behind} :
      Path tokens q start i c choices along j d →
      program.Run tokens (start + q.steps) j d choices' behind k e →
      behind <:+ all →
      (all.filter fun place => program.atClause place.1) =
        along ++ behind.filter (fun place => program.atClause place.1) →
      Crosses program tokens q start i c k e (choices ++ choices') all

/-- A simple run from the first step of a query's code goes along a path through the query. -/
theorem crosses (contains : program.Contains start (q.code start))
    (run : program.Run tokens start i c choices places k e) (simple : places.Nodup) :
    Crosses program tokens q start i c k e choices places := by
  induction q generalizing start i c choices places with
  | done => exact .intro .done run List.suffix_rfl rfl
  | accept p rest ih =>
    obtain ⟨step, contains⟩ := contains_cons.mp contains
    obtain ⟨token, c', others, here, accepts, next, rfl⟩ := run.at_test step
    obtain ⟨path, behind, suffix, same⟩ := ih contains next (List.nodup_cons.mp simple).2
    rw [Nat.add_right_comm, Nat.add_assoc] at behind
    refine .intro (.accept here accepts path) behind (suffix.trans (List.suffix_cons ..)) ?_
    rw [List.filter_cons_of_pos (by simp [atClause, step]), same, List.cons_append]
  | reject p rest ih =>
    obtain ⟨step, contains⟩ := contains_cons.mp contains
    obtain ⟨token, c', others, here, rejects, next, rfl⟩ := run.at_test step
    obtain ⟨path, behind, suffix, same⟩ := ih contains next (List.nodup_cons.mp simple).2
    rw [Nat.add_right_comm, Nat.add_assoc] at behind
    refine .intro (.reject here rejects path) behind (suffix.trans (List.suffix_cons ..)) ?_
    rw [List.filter_cons_of_pos (by simp [atClause, step]), same, List.cons_append]
  | either left right rest ihLeft ihRight ih =>
    obtain ⟨split, onLeft, jump, onRight, after⟩ := contains_either.mp contains
    have clause : program.atClause start = true := by simp [atClause, split]
    obtain ⟨chosen, others, rfl, ⟨rfl, next⟩ | ⟨rfl, next⟩⟩ := run.at_split split
    · obtain ⟨side, behind, suffix, same⟩ := ihLeft onLeft next (List.nodup_cons.mp simple).2
      obtain ⟨following, onward, rfl⟩ := behind.at_jump jump
      have suffix := (List.suffix_cons ..).trans suffix
      obtain ⟨path, behind', suffix', same'⟩ :=
        ih after onward ((List.nodup_cons.mp simple).2.sublist suffix.sublist)
      rw [← behind_either] at behind'
      have whole := Crosses.intro (Path.left side path) behind'
        ((suffix'.trans suffix).trans (List.suffix_cons (start, i) _)) (by
          rw [List.filter_cons_of_pos (by simpa using clause), same,
            List.filter_cons_of_neg (by simp [atClause, jump]), same', List.cons_append,
            List.append_assoc])
      simpa only [List.cons_append, List.append_assoc] using whole
    · obtain ⟨side, behind, suffix, same⟩ := ihRight onRight next (List.nodup_cons.mp simple).2
      obtain ⟨path, behind', suffix', same'⟩ :=
        ih after behind ((List.nodup_cons.mp simple).2.sublist suffix.sublist)
      rw [← behind_either] at behind'
      have whole := Crosses.intro (Path.right side path) behind'
        ((suffix'.trans suffix).trans (List.suffix_cons (start, i) _)) (by
          rw [List.filter_cons_of_pos (by simpa using clause), same, same', List.cons_append,
            List.append_assoc])
      simpa only [List.cons_append, List.append_assoc] using whole
  | repeated body rest ihBody ih =>
    obtain ⟨split, inBody, jump, after⟩ := contains_repeated.mp contains
    have clause : program.atClause start = true := by simp [atClause, split]
    -- Each round leaves a shorter run.
    induction length : places.length using Nat.strongRecOn generalizing i c choices places
    rename_i shorter
    obtain ⟨chosen, others, rfl, ⟨rfl, next⟩ | ⟨rfl, next⟩⟩ := run.at_split split
    · obtain ⟨path, behind, suffix, same⟩ := ih after next (List.nodup_cons.mp simple).2
      rw [← behind_repeated] at behind
      refine .intro (.leave path) behind (suffix.trans (List.suffix_cons ..)) ?_
      rw [List.filter_cons_of_pos (by simpa using clause), same, List.cons_append]
    · obtain ⟨new, simple⟩ := List.nodup_cons.mp simple
      obtain ⟨round, behind, suffix, same⟩ := ihBody inBody next simple
      obtain ⟨following, onward, rfl⟩ := behind.at_jump jump
      have remains := (List.suffix_cons ..).trans suffix
      have bound := remains.length_le
      obtain ⟨path, behind', suffix', same'⟩ :=
        shorter following.length (by simp only [List.length_cons] at length; omega) onward
          (simple.sublist remains.sublist) rfl
      -- An empty round would come back to this place.
      have consumes := Nat.lt_of_le_of_ne round.le (by
        rintro rfl
        obtain ⟨_, rfl⟩ := onward.starts
        exact new (remains.mem (List.mem_cons_self ..)))
      have whole := Crosses.intro (Path.round round consumes path) behind'
        ((suffix'.trans remains).trans (List.suffix_cons (start, i) _)) (by
          rw [List.filter_cons_of_pos (by simpa using clause), same,
            List.filter_cons_of_neg (by simp [atClause, jump]), same', List.cons_append,
            List.append_assoc])
      simpa only [List.cons_append, List.append_assoc] using whole

theorem contains_program (q : Query) : q.program.Contains 0 (q.code 0) := by
  intro n inside
  simp [program, List.getElem?_append_left inside]

theorem program_end (q : Query) : q.program[0 + q.steps]? = some .accept := by
  simp [program, ← length_code q 0]

/-- A path through a query is a run of its program, and a simple one if it is simple. -/
theorem Path.program_run (path : Path tokens q 0 i c choices places k d) :
    ∃ all, q.program.Run tokens 0 i c choices all k d ∧
      (all.filter fun place => q.program.atClause place.1) = places ∧
      (places.Nodup → all.Nodup) := by
  obtain ⟨all, run, same⟩ := path.run (contains_program q) (.accept (program_end q))
  have noClause : q.program.atClause (0 + q.steps) = false := by rw [atClause, program_end]
  rw [List.filter_cons_of_neg (by simp only [noClause, Bool.false_eq_true, not_false_eq_true]),
    List.filter_nil, List.append_nil] at same
  rw [List.append_nil] at run
  exact ⟨all, run, same, fun simple => run.nodup_of_clauses (same ▸ simple)⟩

/-- The choices of a path determine it. -/
theorem Path.unique (path : Path tokens q 0 i c choices places k d) {k' : Nat} {d' : Context}
    (other : Path tokens q 0 i c choices places' k' d') : places = places' ∧ k = k' ∧ d = d' := by
  obtain ⟨all, run, same, -⟩ := path.program_run
  obtain ⟨all', run', same', -⟩ := other.program_run
  obtain ⟨rfl, rfl, rfl⟩ := run.unique run' rfl
  exact ⟨same.symm.trans same', rfl, rfl⟩

/-- A simple run of a query's program is a simple path through the query. -/
theorem exists_path (run : q.program.Run tokens 0 i c choices places k d) (simple : places.Nodup) :
    ∃ along, Path tokens q 0 i c choices along k d ∧ along.Nodup := by
  have clauses := simple.sublist (List.filter_sublist (p := fun place =>
    q.program.atClause place.1))
  obtain ⟨path, behind, -, same⟩ := crosses (contains_program q) run simple
  obtain ⟨rfl, rfl, rfl, rfl⟩ := behind.at_accept (program_end q)
  rw [List.append_nil]
  exact ⟨_, path, clauses.sublist (same ▸ List.sublist_append_left ..)⟩

end Query

end MutantSieve
