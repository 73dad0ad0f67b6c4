import MutantSieve.Proofs.Pattern.Composition
import MutantSieve.Proofs.Pattern.Matching
import MutantSieve.Proofs.Pattern.Threads

namespace MutantSieve

namespace Context

/-- From one context to another, a slot was left alone, or it is one of the slots and was given what
a token supplies for it that stands at offset `i` or behind it and before offset `k`. -/
def FilledWithin (tokens : List Token) (slots : List SlotKey) (i k : Nat) (c d : Context)
    (key : SlotKey) : Prop :=
  d.get? key = c.get? key ∨ key ∈ slots ∧ ∃ j token, i ≤ j ∧ j < k ∧ tokens[j]? = some token ∧
    token.Supplied d key

variable {tokens : List Token} {slots : List SlotKey} {i i' j k k' : Nat} {c d e : Context}
  {key : SlotKey}

theorem FilledWithin.refl (c : Context) (key : SlotKey) :
    FilledWithin tokens slots i k c c key := .inl rfl

theorem FilledWithin.mono (filled : FilledWithin tokens slots i k c d key) (before : i' ≤ i)
    (behind : k ≤ k') : FilledWithin tokens slots i' k' c d key := by
  rcases filled with same | ⟨member, j, token, lower, upper, here, supplied⟩
  · exact .inl same
  · exact .inr ⟨member, j, token, before.trans lower, upper.trans_le behind, here, supplied⟩

theorem FilledWithin.trans (first : FilledWithin tokens slots i j c d key)
    (second : FilledWithin tokens slots j k d e key) (le : i ≤ j) (le' : j ≤ k) :
    FilledWithin tokens slots i k c e key := by
  rcases second with same | supplied
  · rcases first with same' | ⟨member, place, token, lower, upper, here, supplied⟩
    · exact .inl (same.trans same')
    · exact .inr ⟨member, place, token, lower, upper.trans_le le', here, supplied.fills (.inl same)⟩
  · exact FilledWithin.mono (.inr supplied) le (Nat.le_refl k)

theorem FilledWithin.isBound (filled : FilledWithin tokens slots i k c d key)
    (bound : c.isBound key = true) : d.isBound key = true := by
  rcases filled with same | ⟨-, _, _, -, -, -, supplied⟩
  · rw [Context.isBound, same]
    exact bound
  · exact supplied.isBound

end Context

open Context

variable {tokens : List Token} {slots : List SlotKey} {i k : Nat} {token : Token} {c d : Context}

/-- A test fills the slots of its leaves from the token that is tested. -/
theorem Predicate.filledWithin_test {p : Predicate} (within : p.targets ⊆ slots)
    (here : tokens[i]? = some token) (c : Context) (key : SlotKey) :
    FilledWithin tokens slots i (i + 1) c (p.test token c).2 key := by
  by_cases target : key ∈ p.targets
  · rcases fills_test p token c key with same | supplied
    · exact .inl same
    · exact .inr ⟨within target, i, token, Nat.le_refl i, Nat.lt_succ_self i, here, supplied⟩
  · exact .inl (get?_test target)

namespace Query

open Program

variable {q : Query} {start : Nat} {ignores : Option Predicate} {bound : List SlotKey} {m : Matcher}

/-- A derivation fills the slots of the query's leaves from the tokens that it consumes. -/
theorem Derives.filledWithin (derivation : Derives tokens q i c k d) (within : q.targets ⊆ slots)
    (key : SlotKey) : FilledWithin tokens slots i k c d key := by
  induction derivation with
  | done => exact .refl _ key
  | @accept p _ _ i _ c _ _ here accepts rest ih =>
    obtain ⟨first, later⟩ := List.append_subset.mp within
    have tested := Predicate.filledWithin_test first here c key
    rw [accepts] at tested
    exact tested.trans (ih later) (Nat.le_succ i) rest.le
  | @reject p _ _ i _ c _ _ here rejects rest ih =>
    obtain ⟨first, later⟩ := List.append_subset.mp within
    have tested := Predicate.filledWithin_test (p := p.negate) first here c key
    rw [rejects] at tested
    exact tested.trans (ih later) (Nat.le_succ i) rest.le
  | left side rest ihSide ih =>
    obtain ⟨sides, later⟩ := List.append_subset.mp within
    exact (ihSide (List.append_subset.mp sides).1).trans (ih later) side.le rest.le
  | right side rest ihSide ih =>
    obtain ⟨sides, later⟩ := List.append_subset.mp within
    exact (ihSide (List.append_subset.mp sides).2).trans (ih later) side.le rest.le
  | leave _ ih => exact ih (List.append_subset.mp within).2
  | round body rest ihBody ih =>
    exact (ihBody (List.append_subset.mp within).1).trans (ih within) body.le rest.le

/-- What a compiled query finds is derived from some offset on. -/
theorem exists_derives_of_find? (compiled : q.compile ignores bound = .ok m) (body : Body)
    (c : Context) {r : Match} (found : m.find? body c = some r) :
    ∃ start ≤ r.finish, r.finish ≤ (m.significant body c).length ∧
      Derives (m.significant body c) q start c r.finish r.context := by
  obtain ⟨rfl, -, -⟩ := compile_eq_ok compiled
  have searched := search_spec (Matcher.significant ⟨q.program, ignores⟩ body c) q c
  have found : q.program.search c 0 .empty _ = some r := found
  rw [found] at searched
  obtain ⟨⟨start, choices, first⟩, within, -⟩ := searched
  obtain ⟨places, path, -⟩ := first.path
  exact ⟨start, path.le, within, path.derives⟩

theorem rejects_of_mem_significant (compiled : q.compile ignores bound = .ok m) {body : Body}
    (member : token ∈ m.significant body c) {p : Predicate} (ignored : p ∈ ignores) :
    (p.test token c).1 = false := by
  obtain ⟨rfl, -, noReads⟩ := compile_eq_ok compiled
  obtain rfl : ignores = some p := ignored
  rw [Matcher.significant_eq noReads body c c, Body.tokensBesides, List.mem_filter] at member
  simpa using member.2

/-- A match is a derivation from one of the significant tokens on. Each slot that it leaves with
another value than before is captured into by a leaf of the query and holds what one of the consumed
tokens supplies for it, the variable of its instruction or the token itself; that token is not an
ignored one. No slot becomes unbound. -/
theorem find?_captures (compiled : q.compile ignores bound = .ok m) (body : Body) (c : Context)
    {r : Match} (found : m.find? body c = some r) :
    ∃ start ≤ r.finish, Derives (m.significant body c) q start c r.finish r.context ∧
      (∀ key, r.context.get? key ≠ c.get? key → key ∈ q.targets ∧ ∃ j token,
        start ≤ j ∧ j < r.finish ∧ (m.significant body c)[j]? = some token ∧
        (∀ p ∈ ignores, (p.test token c).1 = false) ∧ token.Supplied r.context key) ∧
      ∀ key, c.isBound key = true → r.context.isBound key = true := by
  obtain ⟨start, le, -, derivation⟩ := exists_derives_of_find? compiled body c found
  have filled (key : SlotKey) := derivation.filledWithin (List.Subset.refl _) key
  refine ⟨start, le, derivation, fun key changed => ?_, fun key => (filled key).isBound⟩
  obtain ⟨target, j, token, lower, upper, here, supplied⟩ := (filled key).resolve_left changed
  have significant := List.mem_of_getElem? here
  exact ⟨target, j, token, lower, upper, here,
    fun p ignored => rejects_of_mem_significant compiled significant ignored, supplied⟩

/-- The captured variable is that of an access in the window. -/
theorem find?_captures_secondAccess :
    ∃ start ≤ 3, ∃ j token, start ≤ j ∧ j < 3 ∧
      ((secondAccess.matcher (some .marker)).significant storeAndLoads .empty)[j]? = some token ∧
      token.Supplied (Context.empty.storeIndex ⟨0, "var"⟩ 1) ⟨0, .localVariable, "var"⟩ := by
  have found : (secondAccess.matcher (some .marker)).find? storeAndLoads .empty =
      some ⟨3, Context.empty.storeIndex ⟨0, "var"⟩ 1⟩ := by cbv
  obtain ⟨start, within, -, captures, -⟩ :=
    find?_captures secondAccess_compiles storeAndLoads .empty found
  obtain ⟨-, j, token, lower, upper, here, -, supplied⟩ :=
    captures ⟨0, .localVariable, "var"⟩ (by decide)
  exact ⟨start, within, j, token, lower, upper, here, supplied⟩

theorem targets_subset_of_mem_code {p : Predicate} (member : Step.test p ∈ q.code start) :
    p.targets ⊆ q.targets := by
  intro key target
  induction q generalizing start with
  | done => cases member
  | accept first rest ih | reject first rest ih =>
    rcases List.mem_cons.mp member with same | later
    · obtain rfl := Step.test.inj same
      exact List.mem_append_left _ target
    · exact List.mem_append_right _ (ih later)
  | either left right rest ihLeft ihRight ih =>
    simp only [code, List.cons_append, List.mem_cons, List.mem_append, reduceCtorEq,
      false_or] at member
    rcases member with (inLeft | inRight) | later
    · exact List.mem_append_left _ (List.mem_append_left _ (ihLeft inLeft))
    · exact List.mem_append_left _ (List.mem_append_right _ (ihRight inRight))
    · exact List.mem_append_right _ (ih later)
  | repeated body rest ihBody ih =>
    simp only [code, List.cons_append, List.mem_cons, List.mem_append, reduceCtorEq,
      false_or] at member
    rcases member with inBody | later
    · exact List.mem_append_left _ (ihBody inBody)
    · exact List.mem_append_right _ (ih later)

theorem targets_subset_of_test {p : Predicate} {position : Nat}
    (step : q.program[position]? = some (.test p)) : p.targets ⊆ q.targets := by
  have member := List.mem_of_getElem? ((Array.getElem?_toList ..).trans step)
  rcases List.mem_append.mp member with inCode | atEnd
  · exact targets_subset_of_mem_code inCode
  · cases List.mem_singleton.mp atEnd

/-- Each thread of a search has its own window, which ends where the search has come to, and its
context differs from the one that the search started from by what the tokens of the window have
filled. -/
theorem tests_filledWithin {thread : Thread} (tests : q.program.Tests c tokens thread token) :
    ∃ i, tokens[i]? = some token ∧ ∃ start ≤ i, ∀ key,
      FilledWithin tokens q.targets start i c thread.context key := by
  have keeps : q.program.KeepsAt tokens fun i _ d => ∃ start ≤ i, ∀ key,
      FilledWithin tokens q.targets start i c d key := by
    refine ⟨fun _ filled => filled, ?_⟩
    rintro i position p token d here step ⟨start, le, filled⟩ -
    refine ⟨start, Nat.le_succ_of_le le, fun key => ?_⟩
    have tested := Predicate.filledWithin_test (targets_subset_of_test step) here d key
    exact (filled key).trans tested le (Nat.le_succ i)
  exact tests.keptAt keeps fun i => ⟨i, Nat.le_refl i, .refl c⟩

end Query

end MutantSieve
