import MutantSieve.Proofs.Pattern.Backtracking
import MutantSieve.Proofs.Pattern.Matching

namespace MutantSieve.Query

variable {tokens : List Token} {q : Query} {start k n : Nat} {c d : Context} {r s : Match}
  {choices : List Bool} {places : List (Nat × Nat)} {ignores : Option Predicate}
  {bound : List SlotKey} {m : Matcher}

theorem exists_path_of_scan (found : q.scan tokens c = some r) :
    ∃ start ≤ tokens.length, ∃ choices places,
      Path tokens q 0 start c choices places r.finish r.context := by
  obtain ⟨start, within, found, -⟩ := Program.exists_first_of_range found
  obtain ⟨choices, places, k, d, path, ends⟩ := backtrack_sound found 0
  obtain rfl := Option.some.inj ends
  exact ⟨start, Nat.le_of_lt_succ within, choices, places, path⟩

theorem backtrack_ne_none (path : Path tokens q 0 start c choices places k d) :
    q.backtrack tokens start c stop ≠ none := by
  have ends : stop k d = some ⟨k, d⟩ := rfl
  rcases backtrack_first path ends with found | ⟨r, _, found, -⟩ <;> simp [found]

/-- A scan finds something if and only if there is a derivation for it to find. -/
theorem scan_isSome_iff : (q.scan tokens c).isSome = true ↔
    ∃ start ≤ tokens.length, ∃ k d, Derives tokens q start c k d := by
  constructor
  · intro found
    obtain ⟨r, found⟩ := Option.isSome_iff_exists.mp found
    obtain ⟨start, within, choices, places, path⟩ := exists_path_of_scan found
    exact ⟨start, within, _, _, path.derives⟩
  · rintro ⟨start, within, k, d, derivation⟩
    obtain ⟨choices, places, path⟩ := derivation.exists_path 0
    rw [scan, List.findSome?_isSome_iff]
    exact ⟨start, List.mem_range.mpr (Nat.lt_succ_of_le within),
      Option.isSome_iff_ne_none.mpr (backtrack_ne_none path)⟩

/-- If the match of a scan ends where some path ends, it is that of the first path to that place. -/
theorem scan_eq_of_firstPath (first : FirstPath (fun _ => True) tokens q c k start choices d)
    (found : q.scan tokens c = some s) (ends : s.finish = k) : s = ⟨k, d⟩ := by
  obtain ⟨start', within, found, earlier⟩ := Program.exists_first_of_range found
  obtain ⟨places, path, -⟩ := first.path
  -- The scan has no reason to start before the first path, nor after it.
  have before : start' ≤ start := Nat.le_of_not_lt fun after =>
    backtrack_ne_none path (earlier start after)
  obtain ⟨choices', places', k', d', path', same⟩ := backtrack_sound found 0
  obtain rfl := Option.some.inj same
  obtain rfl : k' = k := ends
  have after : start ≤ start' := by
    rcases Prod.Lex.toLex_le_toLex.mp (first.first path' trivial) with lt | ⟨same, -⟩
    · exact Nat.le_of_lt lt
    · exact Nat.le_of_eq same
  obtain rfl := Nat.le_antisymm before after
  have goesOn : stop k' d = some ⟨k', d⟩ := rfl
  rcases backtrack_first path goesOn with found' | ⟨r', choices'', found', leads, preferred⟩
  · exact Option.some.inj (found.symm.trans found')
  · obtain rfl := Option.some.inj (found.symm.trans found')
    obtain ⟨places'', k'', d'', path'', same⟩ := leads
    obtain ⟨rfl, -⟩ : k'' = k' ∧ d'' = d' := by simpa [stop] using same
    rcases Prod.Lex.toLex_le_toLex.mp (first.first path'' trivial) with lt | ⟨-, le⟩
    · exact absurd lt (Nat.lt_irrefl _)
    · exact absurd preferred.lt (not_lt_of_ge le)

theorem FirstPath.take (first : FirstPath (fun _ => True) tokens q c k start choices d) :
    FirstPath (fun _ => True) (tokens.take k) q c k start choices d := by
  obtain ⟨places, path, -⟩ := first.path
  exact ⟨⟨places, path.take, trivial⟩, fun path' _ => first.first path'.of_take trivial⟩

/-- No scan of fewer tokens than the first of all paths needs finds anything. -/
theorem le_of_scan_take (least : ∀ start k d, Derives tokens q start c k d → n ≤ k) {fewer : Nat}
    (found : q.scan (tokens.take fewer) c = some s) : n ≤ s.finish ∧ s.finish ≤ fewer := by
  obtain ⟨start, within, choices, places, path⟩ := exists_path_of_scan found
  refine ⟨least _ _ _ path.of_take.derives, ?_⟩
  have := path.le_length
  rw [List.length_take] at this within
  omega

/-- A compiled query matches if and only if a backtracking scan finds something. A match ends where
the scan has seen just enough tokens to find anything. If no repetition has a body that may consume
nothing, the match is the one that the scan finds in these tokens, and also the one that it finds in
all tokens unless it prefers a path there that ends later. -/
theorem find?_scan (compiled : q.compile ignores bound = .ok m) (body : Body) (c : Context) :
    (m.find? body c).isSome = (q.scan (body.tokensBesides ignores c) c).isSome ∧
      ∀ r, m.find? body c = some r →
        IsLeast {n | (q.scan ((body.tokensBesides ignores c).take n) c).isSome = true} r.finish ∧
        (q.productive = true →
          q.scan ((body.tokensBesides ignores c).take r.finish) c = some r ∧
          ∀ s, q.scan (body.tokensBesides ignores c) c = some s → s.finish = r.finish → s = r) := by
  rw [find?_eq_search compiled body c c]
  refine ⟨Bool.eq_iff_iff.mpr (search_isSome_iff.trans scan_isSome_iff.symm), fun r found => ?_⟩
  have searched := search_spec (body.tokensBesides ignores c) q c
  rw [found] at searched
  obtain ⟨⟨start, choices, first⟩, within, least⟩ := searched
  obtain ⟨places, path, -⟩ := first.path
  have enough : (q.scan ((body.tokensBesides ignores c).take r.finish) c).isSome = true := by
    have := path.le
    exact scan_isSome_iff.mpr ⟨start, by rw [List.length_take]; omega, _, _, path.take.derives⟩
  refine ⟨⟨enough, fun n found => ?_⟩, fun productive => ⟨?_, fun s found ends => ?_⟩⟩
  · obtain ⟨s, found⟩ := Option.isSome_iff_exists.mp found
    have := le_of_scan_take least found
    omega
  · obtain ⟨s, found⟩ := Option.isSome_iff_exists.mp enough
    have bounds := le_of_scan_take least found
    rw [found, scan_eq_of_firstPath (first.of_productive productive).take found (by omega)]
  · exact scan_eq_of_firstPath (first.of_productive productive) found ends

theorem find?_scan_secondAccess :
    secondAccess.compile (some .marker) [] = .ok (secondAccess.matcher (some .marker)) ∧
      (secondAccess.matcher (some .marker)).find? storeAndLoads .empty =
        some ⟨3, Context.empty.storeIndex ⟨0, "var"⟩ 1⟩ ∧
      secondAccess.scan ((storeAndLoads.tokensBesides (some .marker) .empty).take 3) .empty =
        some ⟨3, Context.empty.storeIndex ⟨0, "var"⟩ 1⟩ := by
  have found : (secondAccess.matcher (some .marker)).find? storeAndLoads .empty =
      some ⟨3, Context.empty.storeIndex ⟨0, "var"⟩ 1⟩ := by cbv
  have agrees := (find?_scan secondAccess_compiles storeAndLoads .empty).2 _ found
  exact ⟨secondAccess_compiles, found, (agrees.2 rfl).1⟩

/-- Three instructions of which the first is captured, or else one that is captured itself. -/
def longOrShort : Query :=
  (accept (.captureToken ⟨0, "token"⟩) (accept .any (accept (.opcode .ireturn) done))).orElse
    (accept ((Predicate.opcode .pop).and (.captureToken ⟨0, "token"⟩)) done)

/-- The scan takes the first instruction with all that follows, while the walk stops at the second
one. And if the body of a repetition may consume nothing, the two may part even where they end at
one place. -/
theorem find?_ne_scan :
    longOrShort.compile none [] = .ok (longOrShort.matcher none) ∧
      (longOrShort.matcher none).find? popAndReturn .empty =
        some ⟨2, Context.empty.storeToken ⟨0, "token"⟩ (.placed 1)⟩ ∧
      longOrShort.scan (popAndReturn.tokensBesides none .empty) .empty =
        some ⟨3, Context.empty.storeToken ⟨0, "token"⟩ (.placed 0)⟩ ∧
      (optionalRounds.matcher none).find? popAndReturn .empty =
        some ⟨3, Context.empty.storeToken ⟨0, "token"⟩ (.placed 1)⟩ ∧
      optionalRounds.scan (popAndReturn.tokensBesides none .empty) .empty =
        some ⟨3, Context.empty.storeToken ⟨0, "token"⟩ (.placed 0)⟩ ∧
      Context.empty.storeToken ⟨0, "token"⟩ (.placed 0) ≠
        Context.empty.storeToken ⟨0, "token"⟩ (.placed 1) := by
  exact ⟨rfl, by cbv, by cbv, by cbv, by cbv, by decide⟩

end MutantSieve.Query
