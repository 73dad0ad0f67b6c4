import MutantSieve.Proofs.Pattern.Composition
import MutantSieve.Proofs.Pattern.StaleBindings
import Mathlib

namespace MutantSieve

/-- The context that a search leaves: the one of the match if there is one, otherwise the one that
it started from. -/
def Matcher.contextAfter (m : Matcher) (body : Body) (c : Context) : Context :=
  ((m.find? body c).map Match.context).getD c

namespace Query

variable {tokens : List Token} {q : Query} {ignores : Option Predicate} {bound after : List SlotKey}
  {m : Matcher} {c d : Context}

theorem Derives.agreeOn {i k : Nat} (derivation : Derives tokens q i c k d)
    (spared : ∀ key ∈ bound, key ∉ q.targets) : Context.AgreeOn bound c d :=
  fun key member => (derivation.get?_eq (spared key member)).symm

/-- The context of a match is reached from itself. -/
theorem search_again (checked : q.boundAfter bound = .ok after)
    (spared : ∀ key ∈ bound, key ∉ q.targets) {r : Match}
    (found : q.program.search c 0 .empty tokens = some r) :
    q.program.search r.context 0 .empty tokens = some r := by
  have searched := search_spec tokens q c
  rw [found] at searched
  obtain ⟨⟨start, choices, first⟩, -, least⟩ := searched
  obtain ⟨places, path, -⟩ := first.path
  have agree := path.derives.agreeOn spared
  obtain ⟨s, found', le⟩ := search_agree checked agree found
  have searched' := search_spec tokens q r.context
  rw [found'] at searched'
  obtain ⟨⟨start', choices', second⟩, -, -⟩ := searched'
  obtain ⟨places', path', -⟩ := second.path
  obtain ⟨d, back, -⟩ := path'.agree checked fun key member => (agree key member).symm
  have ends : r.finish = s.finish := Nat.le_antisymm (least _ _ _ back.derives) le
  rw [← ends] at second
  -- What the second search leaves alone stays as the first one left it, too.
  have same : r.context = s.context := Context.ext_get? fun key => by
    rcases first.agree checked agree second key with same | ⟨-, kept⟩
    · exact same
    · exact kept.symm
  obtain ⟨finish, context⟩ := s
  obtain ⟨rfl, rfl⟩ : r.finish = finish ∧ r.context = context := ⟨ends, same⟩
  exact found'

theorem find?_contextAfter (compiled : q.compile ignores bound = .ok m)
    (spared : ∀ key ∈ bound, key ∉ q.targets) (body : Body) (c : Context) :
    m.find? body (m.contextAfter body c) = m.find? body c := by
  obtain ⟨-, ⟨after, checked⟩, -⟩ := compile_eq_ok compiled
  cases found : m.find? body c with
  | none => rw [Matcher.contextAfter, found, Option.map_none, Option.getD_none, found]
  | some r =>
    rw [Matcher.contextAfter, found, Option.map_some, Option.getD_some,
      find?_eq_search compiled body r.context c]
    rw [find?_eq_search compiled body c c] at found
    exact search_again checked spared found

theorem find?_iterate (compiled : q.compile ignores bound = .ok m)
    (spared : ∀ key ∈ bound, key ∉ q.targets) (body : Body) (c : Context) (n : Nat) :
    m.find? body ((m.contextAfter body)^[n] c) = m.find? body c := by
  induction n with
  | zero => rfl
  | succ n ih => rw [Function.iterate_succ_apply', find?_contextAfter compiled spared, ih]

/-- However often a matcher has been run on its own result, it matches again with the same end and
the same bindings, or again does not match and leaves the context as it was. -/
theorem find?_again (compiled : q.compile ignores bound = .ok m)
    (spared : ∀ key ∈ bound, key ∉ q.targets) (body : Body) (c : Context) (n : Nat) :
    (∀ r, m.find? body c = some r →
        m.find? body ((m.contextAfter body)^[n] c) = some r ∧
          (m.contextAfter body)^[n + 1] c = r.context) ∧
      (m.find? body c = none →
        m.find? body ((m.contextAfter body)^[n] c) = none ∧
          (m.contextAfter body)^[n + 1] c = c) := by
  have again := find?_iterate compiled spared body c n
  refine ⟨fun r found => ?_, fun missing => ?_⟩
  · rw [found] at again
    refine ⟨again, ?_⟩
    rw [Function.iterate_succ_apply', Matcher.contextAfter, again]
    rfl
  · have stays : m.contextAfter body c = c := by rw [Matcher.contextAfter, missing]; rfl
    exact ⟨again.trans missing, Function.iterate_fixed stays (n + 1)⟩

/-- A slot for a variable that is known beforehand. -/
def knownVariable : Slot .localVariable := ⟨0, "var"⟩

/-- A slot for the instruction after an access. -/
def nextToken : Slot .instruction := ⟨1, "next"⟩

/-- An access of the known variable, and the instruction after it. -/
def afterAccess : Query :=
  matching (.sameVariable knownVariable) ++ matching (.captureToken nextToken)

/-- The second search meets the token that the first one has captured in place of an old one. -/
theorem find?_again_afterAccess :
    let known := Context.empty.storeIndex knownVariable 2
    let m := afterAccess.matcher (some .marker)
    m.find? storeAndLoads
        ((m.contextAfter storeAndLoads)^[2] (known.storeToken nextToken (.placed 0))) =
      some ⟨3, known.storeToken nextToken (.placed 3)⟩ := by
  intro known m
  have compiled : afterAccess.compile (some .marker) [knownVariable.key] = .ok m := by cbv
  have found : m.find? storeAndLoads (known.storeToken nextToken (.placed 0)) =
      some ⟨3, known.storeToken nextToken (.placed 3)⟩ := by cbv
  exact ((find?_again compiled (by decide) storeAndLoads _ 2).1 _ found).1

end Query

end MutantSieve
