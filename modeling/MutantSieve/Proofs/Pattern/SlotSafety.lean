import MutantSieve.Proofs.Pattern.Matching

namespace MutantSieve

open Context

namespace Program

/-- For `n` steps from a position on, whatever the tokens are, a test comes only when the slots that
it reads are bound. -/
def Guarded (program : Program) : (n : Nat) → (position : Nat) → Context → Prop
  | 0, _, _ => True
  | n + 1, position, c =>
    (∀ p, program[position]? = some (.test p) → c.Binds p.reads ∧
      ∀ token, (p.test token c).1 = true →
        program.Guarded n (position + 1) (p.test token c).2) ∧
    ∀ choice target, program.Moves position choice target → program.Guarded n target c

variable {program : Program} {n position : Nat} {c : Context}

theorem guarded_test {p : Predicate} (step : program[position]? = some (.test p))
    (binds : c.Binds p.reads)
    (next : ∀ token, (p.test token c).1 = true →
      program.Guarded n (position + 1) (p.test token c).2) :
    program.Guarded (n + 1) position c := by
  refine ⟨fun p' step' => ?_, fun choice target moves => absurd step moves.ne_test⟩
  obtain rfl : p = p' := by simpa [step] using step'
  exact ⟨binds, next⟩

theorem guarded_jump {target : Nat} (step : program[position]? = some (.jump target))
    (next : program.Guarded n target c) : program.Guarded (n + 1) position c := by
  refine ⟨fun p tests => by simp [step] at tests, fun choice target' moves => ?_⟩
  cases moves with
  | jump jump =>
    obtain rfl : target = target' := by simpa [step] using jump
    exact next
  | first split | second split => simp [step] at split

theorem guarded_split {first second : Nat} (step : program[position]? = some (.split first second))
    (atFirst : program.Guarded n first c) (atSecond : program.Guarded n second c) :
    program.Guarded (n + 1) position c := by
  refine ⟨fun p tests => by simp [step] at tests, fun choice target moves => ?_⟩
  cases moves with
  | jump jump => simp [step] at jump
  | first split =>
    obtain ⟨rfl, -⟩ : first = target ∧ second = _ := by simpa [step] using split
    exact atFirst
  | second split =>
    obtain ⟨-, rfl⟩ : first = _ ∧ second = target := by simpa [step] using split
    exact atSecond

theorem keeps_guarded : program.Keeps fun position c => ∀ n, program.Guarded n position c where
  move moves guarded n := (guarded (n + 1)).2 _ _ moves
  test step guarded accepts n := ((guarded (n + 1)).1 _ step).2 _ accepts

end Program

namespace Query

open Program

variable {program : Program} {q : Query} {n start : Nat} {c : Context}
  {bound after : List SlotKey}

/-- The check forgets no slot that was bound beforehand. -/
theorem subset_boundAfter (checked : q.boundAfter bound = .ok after) : bound ⊆ after := by
  induction q generalizing bound with
  | done => exact Except.ok.inj checked ▸ List.Subset.refl _
  | accept p rest ih =>
    intro key member
    exact ih (boundAfter_accept checked).2 (mem_withSlots.mpr (.inl member))
  | reject p rest ih => exact ih (boundAfter_reject checked).2
  | either left right rest _ _ ih =>
    intro key member
    obtain ⟨l, r, -, -, checked⟩ := boundAfter_either checked
    exact ih checked (mem_withSlots.mpr (.inl member))
  | repeated body rest _ ih => exact ih (boundAfter_repeated checked).2

/-- The code of a checked query is guarded if the slots bound beforehand are bound, and what stands
behind it is guarded once the slots bound afterwards are. -/
theorem guarded_of_boundAfter (contains : program.Contains start (q.code start))
    (checked : q.boundAfter bound = .ok after) (binds : c.Binds bound)
    (behind : ∀ m ≤ n, ∀ d : Context, d.Binds after → program.Guarded m (start + q.steps) d) :
    program.Guarded n start c := by
  induction q generalizing start bound after c n with
  | done =>
    obtain rfl := Except.ok.inj checked
    exact behind n (Nat.le_refl n) c binds
  | accept p rest ih =>
    obtain ⟨step, contains⟩ := contains_cons.mp contains
    obtain ⟨reads, checked⟩ := boundAfter_accept checked
    rw [steps, ← Nat.add_assoc, Nat.add_right_comm] at behind
    cases n with
    | zero => trivial
    | succ n =>
      refine guarded_test step (fun key member => binds key (reads member)) fun token accepts => ?_
      refine ih contains checked ?_ fun m le => behind m (Nat.le_succ_of_le le)
      exact binds_withSlots.mpr ⟨Predicate.binds_test binds, Predicate.binds_writes accepts⟩
  | reject p rest ih =>
    obtain ⟨step, contains⟩ := contains_cons.mp contains
    obtain ⟨reads, checked⟩ := boundAfter_reject checked
    rw [steps, ← Nat.add_assoc, Nat.add_right_comm] at behind
    cases n with
    | zero => trivial
    | succ n =>
      refine guarded_test step (fun key member => binds key (reads member)) fun token rejects => ?_
      exact ih contains checked (Predicate.binds_test binds) fun m le =>
        behind m (Nat.le_succ_of_le le)
  | either left right rest ihLeft ihRight ih =>
    obtain ⟨split, onLeft, jump, onRight, contains⟩ := contains_either.mp contains
    obtain ⟨l, r, checkedLeft, checkedRight, checked⟩ := boundAfter_either checked
    rw [behind_either] at behind
    -- Each side binds what both sides bind.
    have next {m : Nat} (le : m ≤ n) {d : Context} {side : List SlotKey}
        (before : bound ⊆ side) (common : commonSlots l r ⊆ side) (binds : d.Binds side) :
        program.Guarded m (start + left.steps + 2 + right.steps) d := by
      refine ih contains checked ?_ fun m' le' => behind m' (by omega)
      exact binds_withSlots.mpr ⟨fun key member => binds key (before member),
        fun key member => binds key (common member)⟩
    cases n with
    | zero => trivial
    | succ n =>
      refine guarded_split split ?_ ?_
      · refine ihLeft onLeft checkedLeft binds fun m le d binds => ?_
        cases m with
        | zero => trivial
        | succ m =>
          exact guarded_jump jump (next (by omega) (subset_boundAfter checkedLeft)
            (fun key member => (mem_commonSlots.mp member).1) binds)
      · refine ihRight onRight checkedRight binds fun m le d binds => ?_
        exact next (by omega) (subset_boundAfter checkedRight)
          (fun key member => (mem_commonSlots.mp member).2) binds
  | repeated body rest ihBody ih =>
    obtain ⟨split, inBody, jump, contains⟩ := contains_repeated.mp contains
    obtain ⟨⟨l, checkedBody⟩, checked⟩ := boundAfter_repeated checked
    rw [behind_repeated] at behind
    -- A round takes up steps, so the way back to its start is guarded for fewer.
    induction n using Nat.strongRecOn generalizing c with
    | ind n shorter =>
      cases n with
      | zero => trivial
      | succ n =>
        refine guarded_split split ?_ ?_
        · exact ih contains checked binds fun m le => behind m (Nat.le_succ_of_le le)
        · refine ihBody inBody checkedBody binds fun m le d binds => ?_
          cases m with
          | zero => trivial
          | succ m =>
            refine guarded_jump jump (shorter m (by omega) ?_ fun m' le' => behind m' (by omega))
            exact fun key member => binds key (subset_boundAfter checkedBody member)

variable {ignores : Option Predicate} {m : Matcher}

/-- Whenever a thread of a compiled query comes to a leaf that reads a slot, the slot is bound to a
value of its kind, provided that the slots are bound that should be bound beforehand. -/
theorem reads_bound (compiled : q.compile ignores bound = .ok m)
    (binds : ∀ key ∈ bound, c.isBound key = true) (body : Body) {thread : Thread} {token : Token}
    (tests : m.program.Tests c (m.significant body c) thread token) {p : Predicate}
    (step : m.program[thread.position]? = some (.test p)) {key : SlotKey} {d : Context}
    (reads : Predicate.Reads token p thread.context key d) :
    ∃ value, d.get? key = some value ∧ value.kind = key.kind := by
  obtain ⟨rfl, ⟨after, checked⟩, -⟩ := compile_eq_ok compiled
  have starts (n : Nat) : q.program.Guarded n 0 c := by
    refine guarded_of_boundAfter (contains_program q) checked binds fun m _ d _ => ?_
    cases m with
    | zero => trivial
    | succ m =>
      refine ⟨fun p tests => ?_, fun choice target moves => ?_⟩
      · rw [program_end q] at tests
        cases tests
      · exact absurd (program_end q) moves.ne_accept
  have guarded := tests.kept keeps_guarded starts 1
  exact exists_value (reads.isBound (guarded.1 p step).1)

/-- The thread that has captured the variable waits behind the repetition for the next access. -/
theorem secondAccess_tests :
    (secondAccess.matcher (some .marker)).program.Tests .empty
      ((secondAccess.matcher (some .marker)).significant storeAndLoads .empty)
      ⟨4, Context.empty.storeIndex ⟨0, "var"⟩ 1⟩ ⟨.placed 1, .access .iload 2⟩ := by
  have tokens : (secondAccess.matcher (some .marker)).significant storeAndLoads .empty =
    [⟨.placed 0, .access .istore 1⟩, ⟨.placed 1, .access .iload 2⟩,
      ⟨.placed 3, .access .iload 1⟩] := rfl
  rw [tokens]
  let c := Context.empty.storeIndex ⟨0, "var"⟩ 1
  have first : secondAccess.program.close .empty [0] .empty =
      some ⟨#[⟨0, .empty⟩], #v[[.empty], [], [], [], [], []]⟩ := by cbv
  have captured : secondAccess.program.advance ⟨.placed 0, .access .istore 1⟩ [⟨0, .empty⟩] .empty =
      .ok ⟨#[⟨4, c⟩, ⟨2, c⟩], #v[[], [c], [c], [], [c], []]⟩ := by cbv
  have second : secondAccess.program.close .empty [0]
      ⟨#[⟨4, c⟩, ⟨2, c⟩], #v[[], [c], [c], [], [c], []]⟩ =
      some ⟨#[⟨4, c⟩, ⟨2, c⟩, ⟨0, .empty⟩], #v[[.empty], [c], [c], [], [c], []]⟩ := by cbv
  exact ⟨1, _, _, _, [], _, _, .next .start first captured, second, rfl, rfl⟩

theorem reads_bound_secondAccess :
    ∃ value, (Context.empty.storeIndex ⟨0, "var"⟩ 1).get? ⟨0, .localVariable, "var"⟩ = some value ∧
      value.kind = .localVariable :=
  reads_bound (p := .sameVariable ⟨0, "var"⟩) secondAccess_compiles (fun _ member => nomatch member)
    storeAndLoads secondAccess_tests rfl .sameVariable

end Query

end MutantSieve
