import MutantSieve.Proofs.Pattern.FirstRun
import MutantSieve.Proofs.Pattern.Threads

namespace MutantSieve

namespace Frontier

variable {size : Nat}

/-- The positions that a context has been at. -/
def been (f : Frontier size) (c : Context) : Finset Nat :=
  (Finset.range size).filter fun p => ∃ inside : p < size, c ∈ f.seen[p]

theorem mem_been {f : Frontier size} {c : Context} {p : Nat} :
    p ∈ f.been c ↔ ∃ inside : p < size, c ∈ f.seen[p] := by
  simp only [been, Finset.mem_filter, Finset.mem_range, and_iff_right_iff_imp]
  exact fun ⟨inside, _⟩ => inside

theorem been_empty (c : Context) : (empty : Frontier size).been c = ∅ := by
  ext p
  simp [mem_been, empty]

theorem been_push (f : Frontier size) (thread : Thread) (c : Context) :
    (f.push thread).been c = f.been c := rfl

theorem been_visit (f : Frontier size) {position : Nat} (inside : position < size)
    (c c' : Context) : (f.visit position inside c).been c' =
      if c' = c then insert position (f.been c') else f.been c' := by
  ext p
  by_cases same : position = p
  · subst same
    by_cases sameContext : c' = c <;> simp [mem_been, visit, sameContext, inside]
  · by_cases sameContext : c' = c <;> simp [mem_been, visit, sameContext, same, Ne.symm same]

end Frontier

namespace Program

variable (program : Program) (tokens : List Token) (goal i : Nat)

/-- Where the first run of some threads that ends at the offset `goal` leads to. -/
def endingOf (threads : List Thread) : Option Context :=
  threads.findSome? fun thread => program.ending tokens goal ∅ thread.position i thread.context

/-- Where the first run from some positions that ends at the offset `goal` leads to. -/
def endingFrom (c : Context) (been : Finset Nat) (pending : List Nat) : Option Context :=
  pending.findSome? fun position => program.ending tokens goal been position i c

/-- From where threads have been, no run ends at the offset `goal`. -/
def Settled (f : Frontier program.size) : Prop :=
  ∀ c, ∀ p ∈ f.been c, program.ending tokens goal ∅ p i c = none

variable {program tokens goal i} {c : Context} {f : Frontier program.size} {position : Nat}
  {pending : List Nat}

theorem Settled.visit (settled : program.Settled tokens goal i f) (inside : position < program.size)
    (dead : program.ending tokens goal (f.been c) position i c = none) :
    program.Settled tokens goal i (f.visit position inside c) := by
  intro c' p old
  rw [Frontier.been_visit] at old
  split at old
  · next same =>
    subst same
    rcases Finset.mem_insert.mp old with rfl | old
    · rw [← dead]
      exact (ending_of_dead (Finset.empty_subset _) fun p old _ => settled c' p old).symm
    · exact settled c' p old
  · exact settled c' p old

theorem endingFrom_cons {been : Finset Nat} :
    program.endingFrom tokens goal i c been (position :: pending) =
      (program.ending tokens goal been position i c).or
        (program.endingFrom tokens goal i c been pending) := by
  rw [endingFrom, List.findSome?_cons]
  cases program.ending tokens goal been position i c <;> rfl

/-- Once a position has been visited, the pending ones need not come there again. -/
theorem endingFrom_visit {been : Finset Nat} :
    program.endingFrom tokens goal i c been (position :: pending) =
      (program.ending tokens goal been position i c).or
        (program.endingFrom tokens goal i c (insert position been) pending) := by
  rw [endingFrom_cons]
  cases first : program.ending tokens goal been position i c with
  | some d => rfl
  | none =>
    rw [Option.none_or, Option.none_or]
    refine congrArg (List.findSome? · pending) (funext fun p => ?_)
    refine (ending_of_dead (Finset.subset_insert ..) fun p old new => ?_).symm
    rcases Finset.mem_insert.mp old with rfl | old
    · exact first
    · exact absurd old new

theorem endingOf_push (f : Frontier program.size) (thread : Thread) :
    program.endingOf tokens goal i (f.push thread).threads.toList =
      (program.endingOf tokens goal i f.threads.toList).or
        (program.ending tokens goal ∅ thread.position i thread.context) := by
  simp only [endingOf, Frontier.push, Array.toList_push, List.findSome?_append,
    List.findSome?_cons, List.findSome?_nil]
  cases program.ending tokens goal ∅ thread.position i thread.context <;> rfl

theorem endingOf_empty : program.endingOf tokens goal i
    (Frontier.empty : Frontier program.size).threads.toList = none := rfl

theorem settled_empty (program : Program) (tokens : List Token) (goal i : Nat) :
    program.Settled tokens goal i .empty := by
  intro c p old
  simp [Frontier.been_empty] at old

/-- Closing a frontier over pending positions appends their runs; if it comes to the end of the
pattern, the first of their runs that end there has the context at hand. The hypothesis allows a
position to be left out when threads have been there before: what its runs find, a thread or a
pending position finds first. -/
theorem close_spec
    (settled : (program.endingOf tokens goal i f.threads.toList).or
      (program.endingFrom tokens goal i c (f.been c) pending) = none →
        program.Settled tokens goal i f) :
    match program.close c pending f with
    | some next =>
      program.endingOf tokens goal i next.threads.toList =
        (program.endingOf tokens goal i f.threads.toList).or
          (program.endingFrom tokens goal i c (f.been c) pending) ∧
      (program.endingOf tokens goal i next.threads.toList = none →
        program.Settled tokens goal i next)
    | none =>
      goal = i → program.endingFrom tokens goal i c (f.been c) pending = some c := by
  have settledVisit {f : Frontier program.size} {position pending}
      (inside : position < program.size)
      (settled : (program.endingOf tokens goal i f.threads.toList).or
        (program.endingFrom tokens goal i c (f.been c) (position :: pending)) = none →
          program.Settled tokens goal i f)
      (dead : (program.endingOf tokens goal i f.threads.toList).or
        (program.endingFrom tokens goal i c (f.been c) (position :: pending)) = none) :
      program.Settled tokens goal i (f.visit position inside c) := by
    have pendingDead := (Option.or_eq_none_iff.mp dead).2
    rw [endingFrom_cons, Option.or_eq_none_iff] at pendingDead
    exact (settled dead).visit inside pendingDead.1
  -- Visiting a position keeps the invariant, since by then no run from there is left to find.
  fun_induction Program.close program c pending f with
  | case1 f =>
    rw [endingFrom, List.findSome?_nil, Option.or_none] at settled ⊢
    exact ⟨rfl, settled⟩
  | case2 position pending f inside old ih =>
    have skip : program.endingFrom tokens goal i c (f.been c) (position :: pending) =
        program.endingFrom tokens goal i c (f.been c) pending := by
      rw [endingFrom_cons, ending_of_mem (Frontier.mem_been.mpr ⟨inside, old⟩), Option.none_or]
    rw [skip] at settled ⊢
    exact ih settled
  | case3 position pending f inside new step =>
    intro here
    have new : position ∉ f.been c := fun old => new (Frontier.mem_been.mp old).2
    have step := Array.getElem?_eq_some_iff.mpr ⟨inside, step⟩
    rw [endingFrom_cons, ending_accept new step, if_pos here.symm, Option.some_or]
  | case4 position pending f inside new target step ih =>
    have new : position ∉ f.been c := fun old => new (Frontier.mem_been.mp old).2
    have step := Array.getElem?_eq_some_iff.mpr ⟨inside, step⟩
    have same : program.endingFrom tokens goal i c (f.been c) (position :: pending) =
        program.endingFrom tokens goal i c ((f.visit position inside c).been c)
          (target :: pending) := by
      rw [Frontier.been_visit, if_pos rfl, endingFrom_visit, ending_jump new step, endingFrom_cons]
    have settled := settledVisit inside settled
    rw [same] at settled ⊢
    exact ih settled
  | case5 position pending f inside new first second step ih =>
    have new : position ∉ f.been c := fun old => new (Frontier.mem_been.mp old).2
    have step := Array.getElem?_eq_some_iff.mpr ⟨inside, step⟩
    have same : program.endingFrom tokens goal i c (f.been c) (position :: pending) =
        program.endingFrom tokens goal i c ((f.visit position inside c).been c)
          (first :: second :: pending) := by
      rw [Frontier.been_visit, if_pos rfl, endingFrom_visit, ending_split new step, endingFrom_cons,
        endingFrom_cons, Option.or_assoc]
    have settled := settledVisit inside settled
    rw [same] at settled ⊢
    exact ih settled
  | case6 position pending f inside new p step ih =>
    have new : position ∉ f.been c := fun old => new (Frontier.mem_been.mp old).2
    have step := Array.getElem?_eq_some_iff.mpr ⟨inside, step⟩
    have same : (program.endingOf tokens goal i f.threads.toList).or
          (program.endingFrom tokens goal i c (f.been c) (position :: pending)) =
        (program.endingOf tokens goal i
            ((f.visit position inside c).push ⟨position, c⟩).threads.toList).or
          (program.endingFrom tokens goal i c
            (((f.visit position inside c).push ⟨position, c⟩).been c) pending) := by
      rw [endingOf_push, Frontier.been_push, Frontier.been_visit, if_pos rfl, endingFrom_visit,
        ending_test_been new step, Option.or_assoc]
      rfl
    have settled := settledVisit inside settled
    rw [same] at settled
    have rest := ih settled
    cases closed : program.close c pending ((f.visit position inside c).push ⟨position, c⟩) with
    | some next =>
      rw [closed] at rest
      exact ⟨rest.1.trans same.symm, rest.2⟩
    | none =>
      rw [closed, Frontier.been_push, Frontier.been_visit, if_pos rfl] at rest
      intro here
      rw [endingFrom_visit, ending_test_of_le step (.inl here.le), Option.none_or]
      exact rest here
  | case7 position pending f outside ih =>
    have skip : program.endingFrom tokens goal i c (f.been c) (position :: pending) =
        program.endingFrom tokens goal i c (f.been c) pending := by
      rw [endingFrom_cons, ending_of_size_le (Nat.not_lt.mp outside), Option.none_or]
    rw [skip] at settled ⊢
    exact ih settled

theorem endingOf_of_le {threads : List Thread}
    (waiting : program.Waiting (fun _ _ => True) threads)
    (stuck : goal ≤ i ∨ tokens.length ≤ i) :
    program.endingOf tokens goal i threads = none := by
  refine List.findSome?_eq_none_iff.mpr fun thread member => ?_
  obtain ⟨⟨p, step⟩, -⟩ := waiting thread member
  exact ending_test_of_le step stuck

theorem keeps_true : program.Keeps fun _ _ => True :=
  ⟨fun _ _ => trivial, fun _ _ _ => trivial⟩

theorem close_one (c : Context) (position : Nat)
    (settled : program.endingOf tokens goal i f.threads.toList = none →
      program.Settled tokens goal i f) :
    match program.close c [position] f with
    | some next =>
      program.endingOf tokens goal i next.threads.toList =
        (program.endingOf tokens goal i f.threads.toList).or
          (program.ending tokens goal ∅ position i c) ∧
      (program.endingOf tokens goal i next.threads.toList = none →
        program.Settled tokens goal i next)
    | none =>
      goal = i → program.endingOf tokens goal i f.threads.toList = none →
        program.ending tokens goal ∅ position i c = some c := by
  have closing := @close_spec program tokens goal i c f [position] fun dead =>
    settled (Option.or_eq_none_iff.mp dead).1
  have alone : program.endingFrom tokens goal i c (f.been c) [position] =
      program.ending tokens goal (f.been c) position i c := by
    rw [endingFrom_cons, endingFrom, List.findSome?_nil, Option.or_none]
  have anew (dead : program.endingOf tokens goal i f.threads.toList = none) :
      program.ending tokens goal (f.been c) position i c =
        program.ending tokens goal ∅ position i c :=
    ending_of_dead (Finset.empty_subset _) fun p old _ => settled dead c p old
  rw [alone] at closing
  split at closing
  · refine ⟨closing.1.trans ?_, closing.2⟩
    cases dead : program.endingOf tokens goal i f.threads.toList with
    | some d => rfl
    | none => rw [anew dead]
  · intro here dead
    rw [← anew dead]
    exact closing here

/-- Letting threads test a token moves their runs, in order, into the next frontier; if one comes to
the end of the pattern, it is the first of them that ends there. -/
theorem advance_spec {token : Token} (here : tokens[i]? = some token) {threads : List Thread}
    (moving : program.Waiting (fun _ _ => True) threads)
    (waiting : program.Waiting (fun _ _ => True) f.threads.toList)
    (settled : program.endingOf tokens goal (i + 1) f.threads.toList = none →
      program.Settled tokens goal (i + 1) f) :
    match program.advance token threads f with
    | .ok next =>
      program.endingOf tokens goal (i + 1) next.threads.toList =
        (program.endingOf tokens goal (i + 1) f.threads.toList).or
          (program.endingOf tokens goal i threads) ∧
      (program.endingOf tokens goal (i + 1) next.threads.toList = none →
        program.Settled tokens goal (i + 1) next)
    | .error d => goal = i + 1 → program.endingOf tokens goal i threads = some d := by
  induction threads generalizing f with
  | nil => exact ⟨(Option.or_none ..).symm, settled⟩
  | cons thread others ih =>
    obtain ⟨⟨⟨p, step⟩, -⟩, later⟩ := List.forall_mem_cons.mp moving
    have first : program.endingOf tokens goal i (thread :: others) =
        (program.ending tokens goal ∅ thread.position i thread.context).or
          (program.endingOf tokens goal i others) := by
      rw [endingOf, List.findSome?_cons]
      cases program.ending tokens goal ∅ thread.position i thread.context <;> rfl
    rw [ending_test (Finset.notMem_empty _) step here] at first
    rw [Program.advance, step]
    by_cases accepts : (p.test token thread.context).1 = true
    · have closing := close_one (p.test token thread.context).2 (thread.position + 1) settled
      rw [if_pos accepts] at first
      cases closed : program.close (p.test token thread.context).2 [thread.position + 1] f with
      | none =>
        rw [closed] at closing
        simp only [if_pos accepts, closed]
        intro ends
        rw [first, closing ends (endingOf_of_le waiting (.inl ends.le)), Option.some_or]
      | some entered =>
        rw [closed] at closing
        have waiting := keeps_true.close (fun _ _ => trivial) waiting closed
        have rest := ih later waiting closing.2
        simp only [if_pos accepts, closed]
        cases advanced : program.advance token others entered with
        | ok next =>
          rw [advanced, closing.1, Option.or_assoc, ← first] at rest
          exact rest
        | error d =>
          rw [advanced] at rest
          intro ends
          have dead := closing.1.symm.trans (endingOf_of_le waiting (.inl ends.le))
          rw [first, (Option.or_eq_none_iff.mp dead).2, Option.none_or]
          exact rest ends
    · rw [if_neg accepts, Option.none_or] at first
      simp only [if_neg accepts, first]
      exact ih later waiting settled

/-- Where the first run leads to that starts at some offset from `i` on. -/
def endingLater (program : Program) (tokens : List Token) (goal i : Nat) (c : Context) :
    Option Context :=
  (List.range' i (tokens.length + 1 - i)).findSome? fun start =>
    program.ending tokens goal ∅ 0 start c

theorem endingLater_eq (within : i ≤ tokens.length) :
    program.endingLater tokens goal i c =
      (program.ending tokens goal ∅ 0 i c).or (program.endingLater tokens goal (i + 1) c) := by
  have length : tokens.length + 1 - i = tokens.length + 1 - (i + 1) + 1 := by omega
  rw [endingLater, length, List.range'_succ, List.findSome?_cons]
  cases program.ending tokens goal ∅ 0 i c <;> rfl

theorem endingLater_of_lt (before : goal < i) : program.endingLater tokens goal i c = none := by
  refine List.findSome?_eq_none_iff.mpr fun start member => ?_
  have := (List.mem_range'_1.mp member).1
  exact ending_of_lt (by omega)

/-- A fresh thread goes behind those that are running already. -/
theorem close_start (within : i ≤ tokens.length)
    (waiting : program.Waiting (fun _ _ => True) f.threads.toList)
    (settled : ∀ goal, program.endingOf tokens goal i f.threads.toList = none →
      program.Settled tokens goal i f) :
    match program.close c [0] f with
    | some next =>
      program.Waiting (fun _ _ => True) next.threads.toList ∧
      ∀ goal, (program.endingOf tokens goal i f.threads.toList).or
          (program.endingLater tokens goal i c) =
        (program.endingOf tokens goal i next.threads.toList).or
          (program.endingLater tokens goal (i + 1) c)
    | none =>
      (program.endingOf tokens i i f.threads.toList).or (program.endingLater tokens i i c) =
        some c ∧
      ∀ goal < i, (program.endingOf tokens goal i f.threads.toList).or
        (program.endingLater tokens goal i c) = none := by
  cases closed : program.close c [0] f with
  | some next =>
    refine ⟨keeps_true.close (fun _ _ => trivial) waiting closed, fun goal => ?_⟩
    have closing := close_one c 0 (settled goal)
    rw [closed] at closing
    rw [closing.1, endingLater_eq within, Option.or_assoc]
  | none =>
    have closing := close_one c 0 (settled i)
    have running : program.endingOf tokens i i f.threads.toList = none :=
      endingOf_of_le waiting (.inl (Nat.le_refl i))
    rw [closed] at closing
    refine ⟨?_, fun goal before => ?_⟩
    · rw [running, endingLater_eq within, closing rfl running, Option.none_or, Option.some_or]
    · rw [endingOf_of_le waiting (.inl before.le), endingLater_of_lt before, Option.none_or]

/-- A search finds the smallest offset at which a run of its threads or a later one ends, and the
context of the first run that ends there. -/
theorem search_spec {running : Frontier program.size} {rest : List Token}
    (suffix : tokens.drop i = rest) (within : i ≤ tokens.length)
    (waiting : program.Waiting (fun _ _ => True) running.threads.toList)
    (settled : ∀ goal, program.endingOf tokens goal i running.threads.toList = none →
      program.Settled tokens goal i running) :
    match program.search c i running rest with
    | some r =>
      (program.endingOf tokens r.finish i running.threads.toList).or
        (program.endingLater tokens r.finish i c) = some r.context ∧
      ∀ goal < r.finish, (program.endingOf tokens goal i running.threads.toList).or
        (program.endingLater tokens goal i c) = none
    | none =>
      ∀ goal, (program.endingOf tokens goal i running.threads.toList).or
        (program.endingLater tokens goal i c) = none := by
  have starting := close_start (c := c) within waiting settled
  -- Each token moves the threads on, and the starts that are left begin one offset later.
  induction rest generalizing i running with
  | nil =>
    have ended : tokens.length ≤ i := List.drop_eq_nil_iff.mp suffix
    rw [Program.search]
    cases closed : program.close c [0] running with
    | none =>
      rw [closed] at starting
      exact starting
    | some entered =>
      rw [closed] at starting
      intro goal
      rw [starting.2, endingOf_of_le starting.1 (.inr ended), Option.none_or, endingLater]
      simp [show tokens.length + 1 - (i + 1) = 0 by omega]
  | cons token rest ih =>
    have here : tokens[i]? = some token := by
      rw [← List.head?_drop, suffix, List.head?_cons]
    have suffix' : tokens.drop (i + 1) = rest := by
      rw [← List.tail_drop, suffix, List.tail_cons]
    have within' : i + 1 ≤ tokens.length := (List.getElem?_eq_some_iff.mp here).1
    rw [Program.search]
    cases closed : program.close c [0] running with
    | none =>
      rw [closed] at starting
      exact starting
    | some entered =>
      rw [closed] at starting
      have advancing (goal : Nat) := advance_spec here starting.1 (waiting_empty program)
        fun _ => settled_empty program tokens goal (i + 1)
      cases advanced : program.advance token entered.threads.toList .empty with
      | error d =>
        simp only [advanced] at advancing ⊢
        refine ⟨?_, fun goal before => ?_⟩
        · rw [starting.2, advancing _ rfl, Option.some_or]
        · have here : goal ≤ i := Nat.le_of_lt_succ before
          rw [starting.2, endingOf_of_le starting.1 (.inl here), endingLater_of_lt before,
            Option.none_or]
      | ok next =>
        simp only [advanced, endingOf_empty, Option.none_or] at advancing ⊢
        have waiting := keeps_true.advance starting.1 (waiting_empty program) advanced
        have settled (goal : Nat) := (advancing goal).2
        have later := ih suffix' within' waiting settled (close_start within' waiting settled)
        simpa only [starting.2, (advancing _).1] using later

variable {d : Context} {choices : List Bool} {places : List (Nat × Nat)}

/-- The number that a search through the first `n` numbers stops at. -/
theorem exists_first_of_range {α : Type} {f : Nat → Option α} {n : Nat} {a : α}
    (found : (List.range n).findSome? f = some a) : ∃ i < n, f i = some a ∧ ∀ j < i, f j = none := by
  induction n with
  | zero => cases found
  | succ n ih =>
    rw [List.range_succ, List.findSome?_append] at found
    rcases Option.or_eq_some_iff.mp found with earlier | ⟨nothing, last⟩
    · obtain ⟨i, before, here, first⟩ := ih earlier
      exact ⟨i, Nat.lt_succ_of_lt before, here, first⟩
    · rw [List.findSome?_singleton] at last
      exact ⟨n, Nat.lt_succ_self n, last, fun j before =>
        List.findSome?_eq_none_iff.mp nothing j (List.mem_range.mpr before)⟩

/-- The first of the starts from which a simple run ends at the offset. -/
theorem exists_start (found : program.endingLater tokens goal 0 c = some d) :
    ∃ start ≤ tokens.length, program.ending tokens goal ∅ 0 start c = some d ∧
      ∀ earlier < start, program.ending tokens goal ∅ 0 earlier c = none := by
  rw [endingLater, ← List.range_eq_range', Nat.sub_zero] at found
  obtain ⟨start, within, ends, first⟩ := exists_first_of_range found
  exact ⟨start, Nat.le_of_lt_succ within, ends, first⟩

theorem not_run_of_endingLater (none : program.endingLater tokens goal 0 c = none)
    (within : i ≤ tokens.length) (run : program.Run tokens 0 i c choices places goal d) :
    False := by
  obtain ⟨choices', places', run, simple⟩ := run.exists_simple
  have nothing := List.findSome?_eq_none_iff.mp none i (List.mem_range'_1.mpr (by omega))
  exact ending_eq_none_iff.mp nothing choices' places' d run (avoids_empty.mpr simple)

end Program

end MutantSieve
