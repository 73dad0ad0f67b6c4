import MutantSieve.Proofs.Pattern.Matching

namespace MutantSieve.Query

open Program Context

variable {tokens : List Token} {q : Query} {start i k : Nat} {a b c d a' b' : Context}
  {choices choices' : List Bool} {places places' : List (Nat × Nat)} {ignores : Option Predicate}
  {bound after : List SlotKey} {m : Matcher}

/-- A path of a checked query is a path from any other context that agrees on the slots bound
beforehand. -/
theorem Path.agree (path : Path tokens q start i a choices places k a')
    (checked : q.boundAfter bound = .ok after) (agree : AgreeOn bound a b) :
    ∃ b', Path tokens q start i b choices places k b' ∧ SameChange a b a' b' ∧
      AgreeOn after a' b' := by
  -- Between clauses, the contexts agree on what the check takes to be bound there.
  induction path generalizing b bound after with
  | done =>
    obtain rfl := Except.ok.inj checked
    exact ⟨b, .done, .refl _ b, agree⟩
  | @accept p rest token start i k a _ _ _ _ here accepts _ ih =>
    obtain ⟨reads, checked⟩ := boundAfter_accept checked
    obtain ⟨same, change, written⟩ := Predicate.sameTest token (agree.mono reads)
    rw [accepts] at same change written
    obtain ⟨b', path, later, agree'⟩ := ih checked
      (agreeOn_withSlots.mpr ⟨change.agreeOn agree, written rfl⟩)
    have accepts' : p.test token b = (true, (p.test token b).2) := Prod.ext same.symm rfl
    exact ⟨b', .accept here accepts' path, change.trans later, agree'⟩
  | @reject p rest token start i k a _ _ _ _ here rejects _ ih =>
    obtain ⟨reads, checked⟩ := boundAfter_reject checked
    obtain ⟨same, change, -⟩ := Predicate.sameTest (p := p.negate) token (agree.mono reads)
    rw [rejects] at same change
    obtain ⟨b', path, later, agree'⟩ := ih checked (change.agreeOn agree)
    have rejects' : p.negate.test token b = (true, (p.negate.test token b).2) :=
      Prod.ext same.symm rfl
    exact ⟨b', .reject here rejects' path, change.trans later, agree'⟩
  | left _ _ ihSide ih =>
    obtain ⟨l, r, checkedLeft, -, checked⟩ := boundAfter_either checked
    obtain ⟨b₁, side, change, agreeLeft⟩ := ihSide checkedLeft agree
    have common : AgreeOn (commonSlots l r) _ b₁ :=
      agreeLeft.mono fun key member => (mem_commonSlots.mp member).1
    obtain ⟨b', path, later, agree'⟩ := ih checked
      (agreeOn_withSlots.mpr ⟨change.agreeOn agree, common⟩)
    exact ⟨b', .left side path, change.trans later, agree'⟩
  | right _ _ ihSide ih =>
    obtain ⟨l, r, -, checkedRight, checked⟩ := boundAfter_either checked
    obtain ⟨b₁, side, change, agreeRight⟩ := ihSide checkedRight agree
    have common : AgreeOn (commonSlots l r) _ b₁ :=
      agreeRight.mono fun key member => (mem_commonSlots.mp member).2
    obtain ⟨b', path, later, agree'⟩ := ih checked
      (agreeOn_withSlots.mpr ⟨change.agreeOn agree, common⟩)
    exact ⟨b', .right side path, change.trans later, agree'⟩
  | leave _ ih =>
    obtain ⟨-, checked⟩ := boundAfter_repeated checked
    obtain ⟨b', path, change, agree'⟩ := ih checked agree
    exact ⟨b', .leave path, change, agree'⟩
  | round _ consumes _ ihBody ih =>
    obtain ⟨⟨l, checkedBody⟩, -⟩ := boundAfter_repeated checked
    obtain ⟨b₁, round, change, -⟩ := ihBody checkedBody agree
    obtain ⟨b', path, later, agree'⟩ := ih checked (change.agreeOn agree)
    exact ⟨b', .round round consumes path, change.trans later, agree'⟩

/-- The first paths from two contexts that agree on the slots bound beforehand are the same path. -/
theorem FirstPath.agree (checked : q.boundAfter bound = .ok after) (agree : AgreeOn bound a b)
    (first : FirstPath List.Nodup tokens q a k start choices a') {start' : Nat}
    (second : FirstPath List.Nodup tokens q b k start' choices' b') : SameChange a b a' b' := by
  obtain ⟨places, path, simple⟩ := first.path
  obtain ⟨places', path', simple'⟩ := second.path
  obtain ⟨b'', transferred, change, -⟩ := path.agree checked agree
  obtain ⟨a'', transferred', -⟩ := path'.agree checked fun key member => (agree key member).symm
  have same := le_antisymm (first.first transferred' simple') (second.first transferred simple)
  obtain ⟨rfl, rfl⟩ := Prod.mk.inj (toLex.injective same)
  obtain ⟨-, -, rfl⟩ := transferred.unique path'
  exact change

theorem search_agree (checked : q.boundAfter bound = .ok after) (agree : AgreeOn bound a b)
    {r : Match} (found : q.program.search a 0 .empty tokens = some r) :
    ∃ s, q.program.search b 0 .empty tokens = some s ∧ s.finish ≤ r.finish := by
  have searchedA := search_spec tokens q a
  have searchedB := search_spec tokens q b
  rw [found] at searchedA
  obtain ⟨⟨start, choices, first⟩, within, -⟩ := searchedA
  obtain ⟨places, path, -⟩ := first.path
  obtain ⟨b', transferred, -⟩ := path.agree checked agree
  cases result : q.program.search b 0 .empty tokens with
  | none =>
    rw [result] at searchedB
    have := path.le
    exact absurd transferred.derives (searchedB start (by omega) _ _)
  | some s =>
    rw [result] at searchedB
    exact ⟨s, rfl, searchedB.2.2 _ _ _ transferred.derives⟩

/-- Slots that a compiled query does not expect to be bound have no say in a search: from contexts
that agree on the others, both searches fail, or both end at one offset and leave in each slot the
same value or what was there before. -/
theorem find?_stale (compiled : q.compile ignores bound = .ok m) (body : Body)
    (agree : AgreeOn bound a b) :
    Option.Rel (fun r s => r.finish = s.finish ∧ SameChange a b r.context s.context)
      (m.find? body a) (m.find? body b) := by
  obtain ⟨-, ⟨after, checked⟩, -⟩ := compile_eq_ok compiled
  have agree' : AgreeOn bound b a := fun key member => (agree key member).symm
  rw [find?_eq_search compiled body a a, find?_eq_search compiled body b a]
  cases fromA : q.program.search a 0 .empty (body.tokensBesides ignores a) with
  | none =>
    cases fromB : q.program.search b 0 .empty (body.tokensBesides ignores a) with
    | none => exact .none
    | some s =>
      obtain ⟨r, found, -⟩ := search_agree checked agree' fromB
      cases fromA.symm.trans found
  | some r =>
    obtain ⟨s, fromB, le⟩ := search_agree checked agree fromA
    obtain ⟨r', fromA', ge⟩ := search_agree checked agree' fromB
    obtain rfl := Option.some.inj (fromA.symm.trans fromA')
    have ends : r.finish = s.finish := Nat.le_antisymm ge le
    have searchedA := search_spec (body.tokensBesides ignores a) q a
    have searchedB := search_spec (body.tokensBesides ignores a) q b
    rw [fromA] at searchedA
    rw [fromB] at searchedB ⊢
    obtain ⟨⟨start, choices, first⟩, -⟩ := searchedA
    obtain ⟨⟨start', choices', second⟩, -⟩ := searchedB
    rw [← ends] at second
    exact .some ⟨ends, first.agree checked agree second⟩

/-- A stale binding of the slot that is captured first makes no difference. -/
theorem find?_stale_secondAccess :
    Option.Rel (fun r s => r.finish = s.finish ∧
        SameChange .empty (Context.empty.storeIndex ⟨0, "var"⟩ 2) r.context s.context)
      ((secondAccess.matcher (some .marker)).find? storeAndLoads .empty)
      ((secondAccess.matcher (some .marker)).find? storeAndLoads
        (Context.empty.storeIndex ⟨0, "var"⟩ 2)) :=
  find?_stale secondAccess_compiles storeAndLoads fun _ member => nomatch member

end MutantSieve.Query
