import MutantSieve.Proofs.Pattern.Lowering
import MutantSieve.Proofs.Pattern.Merging
import Mathlib.Data.Prod.Lex

namespace MutantSieve.Query

open Program

/-- The first of some paths that end at an offset: no other of them starts earlier, nor takes, from
the same start, the preferred side where the choices of the two first differ. -/
structure FirstPath (among : List (Nat × Nat) → Prop) (tokens : List Token) (q : Query)
    (c : Context) (k start : Nat) (choices : List Bool) (d : Context) : Prop where
  path : ∃ places, Path tokens q 0 start c choices places k d ∧ among places
  first {start' choices' places' d'} :
    Path tokens q 0 start' c choices' places' k d' → among places' →
      toLex (start, choices) ≤ toLex (start', choices')

variable {tokens : List Token} {q : Query} {c d : Context} {k start : Nat} {choices : List Bool}

theorem firstPath_of_ending (ends : q.program.ending tokens k ∅ 0 start c = some d)
    (earlier : ∀ s < start, q.program.ending tokens k ∅ 0 s c = none) :
    ∃ choices, FirstPath List.Nodup tokens q c k start choices d := by
  obtain ⟨⟨choices, d⟩, found, rfl⟩ := Option.map_eq_some_iff.mp ends
  obtain ⟨places, run, avoids⟩ := firstRun_sound found
  refine ⟨choices, exists_path run avoids.1, fun {start' choices' places' d'} path simple => ?_⟩
  obtain ⟨all, other, -, simpleRun⟩ := path.program_run
  have avoiding := avoids_empty (i := start').mpr (simpleRun simple)
  rcases Nat.lt_trichotomy start' start with before | rfl | after
  · exact absurd avoiding (ending_eq_none_iff.mp (earlier start' before) choices' all d' other)
  · obtain ⟨choices'', d'', found', le⟩ := firstRun_le other avoiding
    obtain ⟨rfl, -⟩ := Prod.mk.inj (Option.some.inj (found.symm.trans found'))
    exact Prod.Lex.toLex_le_toLex.mpr (.inr ⟨rfl, le⟩)
  · exact Prod.Lex.toLex_le_toLex.mpr (.inl after)

/-- A search ends at the smallest offset at which a path ends, with the context of the first simple
path to that offset; it finds nothing only if there is no path. -/
theorem search_spec (tokens : List Token) (q : Query) (c : Context) :
    match q.program.search c 0 .empty tokens with
    | some r =>
      (∃ start choices, FirstPath List.Nodup tokens q c r.finish start choices r.context) ∧
      r.finish ≤ tokens.length ∧
      ∀ start k d, Derives tokens q start c k d → r.finish ≤ k
    | none => ∀ start ≤ tokens.length, ∀ k d, ¬ Derives tokens q start c k d := by
  have searched := @Program.search_spec q.program tokens 0 c .empty tokens List.drop_zero
    (Nat.zero_le _) (waiting_empty q.program) fun goal _ => settled_empty q.program tokens goal 0
  simp only [endingOf_empty, Option.none_or] at searched
  have noPath {start k : Nat} {d : Context} (none : q.program.endingLater tokens k 0 c = none)
      (within : start ≤ tokens.length) : ¬ Derives tokens q start c k d := by
    intro derivation
    obtain ⟨choices, places, path⟩ := derivation.exists_path 0
    obtain ⟨all, run, -⟩ := path.program_run
    exact not_run_of_endingLater none within run
  cases result : q.program.search c 0 .empty tokens with
  | some r =>
    rw [result] at searched
    obtain ⟨found, least⟩ := searched
    obtain ⟨start, startWithin, ends, earlier⟩ := exists_start found
    obtain ⟨⟨choices, d⟩, foundRun, -⟩ := Option.map_eq_some_iff.mp ends
    obtain ⟨places, run, -⟩ := firstRun_sound foundRun
    have within := run.le_length startWithin
    refine ⟨⟨start, firstPath_of_ending ends earlier⟩, within, fun s k d derivation => ?_⟩
    by_contra sooner
    obtain ⟨choices, places, path⟩ := derivation.exists_path 0
    have := path.le
    exact noPath (least k (by omega)) (by omega) derivation
  | none =>
    rw [result] at searched
    exact fun start within k d => noPath (searched k) within

theorem search_isSome_iff : (q.program.search c 0 .empty tokens).isSome = true ↔
    ∃ start ≤ tokens.length, ∃ k d, Derives tokens q start c k d := by
  have searched := search_spec tokens q c
  cases result : q.program.search c 0 .empty tokens with
  | some r =>
    rw [result] at searched
    obtain ⟨⟨start, choices, first⟩, within, -⟩ := searched
    obtain ⟨places, path, -⟩ := first.path
    exact iff_of_true rfl ⟨start, Nat.le_trans path.le within, _, _, path.derives⟩
  | none =>
    rw [result] at searched
    exact iff_of_false Bool.false_ne_true fun ⟨start, within, k, d, derivation⟩ =>
      searched start within k d derivation

end MutantSieve.Query
