import MutantSieve.Proofs.Pattern.CaptureWindow
import MutantSieve.Proofs.Pattern.SearchAgain

namespace MutantSieve

namespace Predicate

/-- Whether a predicate accepts an instruction, if all slots that it reads hold what the token of
this instruction supplies. -/
def acceptsAlone : Predicate → Instruction → Bool
  | plain t, i => t.accepts i
  | captureVariable _, i | sameVariable _, i => i.localIndex?.isSome
  | captureToken _, _ | sameToken _, _ => true
  | and p q, i => p.acceptsAlone i && q.acceptsAlone i
  | or p q, i => p.acceptsAlone i || q.acceptsAlone i
  | negate p, i => !p.acceptsAlone i

variable {p : Predicate} {token : Token} {c : Context}

/-- A leaf that compares a token with what the same token has supplied accepts it. -/
theorem test_of_supplied (supplied : ∀ key ∈ p.reads, token.Supplied c key) :
    (p.test token c).1 = p.acceptsAlone token.instruction := by
  induction p generalizing c with
  | plain | captureToken => rfl
  | captureVariable slot =>
    rw [test, acceptsAlone]
    cases token.instruction.localIndex? <;> rfl
  | sameVariable slot =>
    obtain ⟨value, supplies, bound⟩ := supplied slot.key (List.mem_singleton_self _)
    obtain ⟨number, names, rfl⟩ := Option.map_eq_some_iff.mp supplies
    simp [test, acceptsAlone, names, Context.localIndex?, bound, Value.index?]
  | sameToken slot =>
    obtain ⟨value, supplies, bound⟩ := supplied slot.key (List.mem_singleton_self _)
    obtain rfl := Option.some.inj supplies
    simp [test, acceptsAlone, Context.token?, bound, Value.token?]
  | and p q ihp ihq =>
    obtain ⟨forLeft, forRight⟩ := forall_mem_withSlots.mp supplied
    rw [test_and, acceptsAlone, ← ihp forLeft]
    by_cases left : (p.test token c).1 = true
    · rw [left, Bool.true_and, Bool.true_and]
      refine ihq fun key read => ?_
      by_cases written : key ∈ p.writes
      · exact supplied_of_accepts left written
      · exact (forRight key (by simp [read, written])).fills (fills_test p token c key)
    · rw [eq_false_of_ne_true left, Bool.false_and, Bool.false_and]
  | or p q ihp ihq =>
    obtain ⟨forLeft, forRight⟩ := forall_mem_withSlots.mp supplied
    rw [test_or, acceptsAlone, ihp forLeft, ihq fun key read =>
      (forRight key read).fills (fills_test p token c key)]
  | negate p ih => rw [test_negate, acceptsAlone, ih supplied]

/-- A predicate that declares no reads goes by the instruction alone. -/
theorem test_eq_acceptsAlone (noReads : p.reads = []) (token : Token) (c : Context) :
    (p.test token c).1 = p.acceptsAlone token.instruction :=
  test_of_supplied fun _ read => absurd (noReads ▸ read) List.not_mem_nil

end Predicate

namespace Query

open Context

variable {q : Query} {p : Predicate} {bound : List SlotKey} {m : Matcher}

theorem significant_eq_filter (compiled : q.compile (some p) bound = .ok m) (body : Body)
    (c : Context) : m.significant body c =
      body.tokens.filter fun token => !p.acceptsAlone token.instruction := by
  obtain ⟨rfl, -, noReads⟩ := compile_eq_ok compiled
  rw [Matcher.significant_eq noReads body c c, Body.tokensBesides]
  refine List.filter_congr fun token _ => ?_
  rw [Option.all_some, Predicate.test_eq_acceptsAlone (noReads p rfl)]

/-- A predicate for ignored instructions that is allowed keeps no state. The significant tokens are
the same in all contexts, namely those whose instructions, each one taken alone, the predicate
rejects. No thread and no result of a search shows what it has captured: their slots are left alone,
or are filled by the query's own leaves from significant tokens. -/
theorem ignoring_stateless (compiled : q.compile (some p) bound = .ok m) (body : Body)
    (b c : Context) :
    m.significant body b = m.significant body c ∧
      m.significant body c =
        body.tokens.filter (fun token => !p.acceptsAlone token.instruction) ∧
      (∀ thread token, m.program.Tests c (m.significant body c) thread token → ∀ key,
        FilledWithin (m.significant body c) q.targets 0 (m.significant body c).length c
          thread.context key) ∧
      ∀ key, FilledWithin (m.significant body c) q.targets 0 (m.significant body c).length c
        (m.contextAfter body c) key := by
  have same := (significant_eq_filter compiled body b).trans
    (significant_eq_filter compiled body c).symm
  refine ⟨same, significant_eq_filter compiled body c, fun thread token tests key => ?_,
    fun key => ?_⟩
  · obtain ⟨rfl, -, -⟩ := compile_eq_ok compiled
    obtain ⟨i, here, start, -, filled⟩ := tests_filledWithin tests
    exact (filled key).mono (Nat.zero_le start) (List.getElem?_eq_some_iff.mp here).1.le
  · rw [Matcher.contextAfter]
    cases found : m.find? body c with
    | none => exact .refl c key
    | some r =>
      obtain ⟨start, -, within, derivation⟩ := exists_derives_of_find? compiled body c found
      have filled := derivation.filledWithin (List.Subset.refl _) key
      exact filled.mono (Nat.zero_le start) within

/-- Accepts markers and captures from all other instructions, without declaring it. -/
def capturingMarker : Predicate :=
  ((Predicate.captureVariable ⟨0, "var"⟩).or (.captureToken ⟨1, "other"⟩)).and .marker

/-- The predicate captures into a slot of the query and into one of its own. Nothing is seen of the
latter. -/
theorem ignoring_stateless_capturingMarker :
    let m := secondAccess.matcher (some capturingMarker)
    m.significant storeAndLoads .empty =
        storeAndLoads.tokens.filter (fun token => !capturingMarker.acceptsAlone token.instruction) ∧
      (m.contextAfter storeAndLoads .empty).get? ⟨1, .instruction, "other"⟩ = none := by
  intro m
  have compiled : secondAccess.compile (some capturingMarker) [] = .ok m := by cbv
  obtain ⟨-, significant, -, visible⟩ := ignoring_stateless compiled storeAndLoads .empty .empty
  refine ⟨significant, ?_⟩
  rcases visible ⟨1, .instruction, "other"⟩ with same | ⟨target, -⟩
  · exact same
  · exact absurd target (by decide)

end Query

end MutantSieve
