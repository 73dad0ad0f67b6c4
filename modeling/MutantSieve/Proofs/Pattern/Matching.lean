import MutantSieve.Proofs.Pattern.FirstPath
import MutantSieve.Proofs.Pattern.Productive
import MutantSieve.Proofs.Pattern.SlotUsage
import Mathlib

namespace MutantSieve.Query

variable {q : Query} {ignores : Option Predicate} {bound : List SlotKey} {m : Matcher}

theorem find?_eq_search (compiled : q.compile ignores bound = .ok m) (body : Body) (b c : Context) :
    m.find? body b = q.program.search b 0 .empty (body.tokensBesides ignores c) := by
  obtain ⟨rfl, -, noReads⟩ := compile_eq_ok compiled
  rw [Matcher.find?, Matcher.significant_eq noReads body b c]

/-- A compiled query matches a body if and only if, from some offset on, its clauses derive from the
tokens that are not ignored. -/
theorem find?_isSome_iff (compiled : q.compile ignores bound = .ok m) (body : Body) (c : Context) :
    (m.find? body c).isSome = true ↔
      ∃ start ≤ (body.tokensBesides ignores c).length, ∃ k d,
        Derives (body.tokensBesides ignores c) q start c k d := by
  have searched := search_spec (body.tokensBesides ignores c) q c
  rw [find?_eq_search compiled body c c]
  cases result : q.program.search c 0 .empty (body.tokensBesides ignores c) with
  | some r =>
    rw [result] at searched
    obtain ⟨⟨start, choices, first⟩, within, -⟩ := searched
    obtain ⟨places, path, -⟩ := first.path
    have := path.le
    exact iff_of_true rfl ⟨start, by omega, r.finish, r.context, path.derives⟩
  | none =>
    rw [result] at searched
    exact iff_of_false Bool.false_ne_true fun ⟨start, within, k, d, derivation⟩ =>
      searched start within k d derivation

/-- An access of a local variable, and the next access of the same variable after it. -/
def secondAccess : Query :=
  accept (.captureVariable ⟨0, "var"⟩)
    (repeated (reject (.sameVariable ⟨0, "var"⟩) done) (accept (.sameVariable ⟨0, "var"⟩) done))

theorem secondAccess_compiles : secondAccess.compile (some .marker) [] =
    .ok (secondAccess.matcher (some .marker)) := rfl

/-- A variable is stored, another one is loaded, and then the first one, with a line number before
it. -/
def storeAndLoads : Body := #[.access .istore 1, .access .iload 2, .line 7 3, .access .iload 1]

theorem find?_isSome_iff_secondAccess :
    ((secondAccess.matcher (some .marker)).find? storeAndLoads .empty).isSome = true ↔
      ∃ start ≤ (storeAndLoads.tokensBesides (some .marker) .empty).length, ∃ k d,
        Derives (storeAndLoads.tokensBesides (some .marker) .empty) secondAccess start .empty k d :=
  find?_isSome_iff secondAccess_compiles storeAndLoads .empty

theorem FirstPath.of_productive {tokens : List Token} {c d : Context} {k start : Nat}
    {choices : List Bool} (productive : q.productive = true)
    (first : FirstPath List.Nodup tokens q c k start choices d) :
    FirstPath (fun _ => True) tokens q c k start choices d := by
  obtain ⟨places, path, -⟩ := first.path
  exact ⟨⟨places, path, trivial⟩, fun path' _ => first.first path' (path'.nodup productive)⟩

/-- A match ends at the smallest offset at which a path ends, with the context of the first of the
paths to that offset that come to no clause twice without an instruction in between. If no
repetition has a body that may consume nothing, that is the first of all paths. -/
theorem find?_first (compiled : q.compile ignores bound = .ok m) (body : Body) (c : Context)
    {r : Match} (found : m.find? body c = some r) :
    r.message = "sequence matched ending at significant offset " ++ toString r.finish ∧
      IsLeast {k | ∃ start choices places d,
        Path (body.tokensBesides ignores c) q 0 start c choices places k d} r.finish ∧
      (∃ start choices, FirstPath List.Nodup (body.tokensBesides ignores c) q c r.finish start
        choices r.context) ∧
      (q.productive = true → ∃ start choices, FirstPath (fun _ => True)
        (body.tokensBesides ignores c) q c r.finish start choices r.context) := by
  have searched := search_spec (body.tokensBesides ignores c) q c
  rw [← find?_eq_search compiled body c c, found] at searched
  obtain ⟨⟨start, choices, first⟩, -, least⟩ := searched
  obtain ⟨places, path, -⟩ := first.path
  refine ⟨rfl, ⟨⟨start, choices, places, r.context, path⟩, ?_⟩, ⟨start, choices, first⟩,
    fun productive => ⟨start, choices, first.of_productive productive⟩⟩
  rintro k ⟨start', choices', places', d, path'⟩
  exact least start' k d path'.derives

theorem find?_first_secondAccess :
    ∃ start choices, FirstPath (fun _ => True) (storeAndLoads.tokensBesides (some .marker) .empty)
      secondAccess .empty 3 start choices (Context.empty.storeIndex ⟨0, "var"⟩ 1) := by
  have found : (secondAccess.matcher (some .marker)).find? storeAndLoads .empty =
      some ⟨3, Context.empty.storeIndex ⟨0, "var"⟩ 1⟩ := by cbv
  exact (find?_first secondAccess_compiles storeAndLoads .empty found).2.2.2 rfl

/-- Rounds of two instructions that may both be missing, of which the first is captured, and then a
return. -/
def optionalRounds : Query :=
  repeated (either done (accept (.captureToken ⟨0, "token"⟩) done)
      (either done (accept (.opcode .pop) done) done))
    (accept (.opcode .ireturn) done)

/-- The ways on from the start of a round. -/
theorem optionalRounds_cases {tokens : List Token} {i k : Nat} {c d : Context} {choices : List Bool}
    {places : List (Nat × Nat)} (path : Path tokens optionalRounds 0 i c choices places k d) :
    ∃ token, tokens[i]? = some token ∧
      (choices = [false] ∧ token.instruction.opcode? = some .ireturn ∧ d = c ∨
        (∃ rest later, choices = [true, false, true] ++ rest ∧
          token.instruction.opcode? = some .pop ∧
          Path tokens optionalRounds 0 (i + 1) c rest later k d) ∨
        ∃ rest later, choices = [true, true, false] ++ rest ∧
          Path tokens optionalRounds 0 (i + 1) (c.storeToken ⟨0, "token"⟩ token.id) rest later k d ∨
          choices = [true, true, true] ++ rest) := by
  cases path with
  | leave last =>
    cases last with
    | accept here accepts last =>
      cases last
      obtain ⟨op, rfl⟩ := Prod.mk.inj accepts
      exact ⟨_, here, .inl ⟨rfl, by simpa [InstructionTest.accepts] using op, rfl⟩⟩
  | round body consumes next =>
    cases body with
    | left first second =>
      cases first
      cases second with
      | left second last =>
        cases second
        cases last
        omega
      | right second last =>
        cases last
        cases second with
        | accept here accepts last =>
          cases last
          obtain ⟨op, rfl⟩ := Prod.mk.inj accepts
          have pop := by simpa [InstructionTest.accepts] using op
          exact ⟨_, here, .inr (.inl ⟨_, _, rfl, pop, next⟩)⟩
    | right first second =>
      cases first with
      | accept here accepts last =>
        cases last
        obtain ⟨-, rfl⟩ := Prod.mk.inj accepts
        cases second with
        | left second last =>
          cases second
          cases last
          exact ⟨_, here, .inr (.inr ⟨_, _, .inl ⟨rfl, next⟩⟩)⟩
        | right second last => exact ⟨_, here, .inr (.inr ⟨_, [], .inr rfl⟩)⟩

/-- An instruction to capture, one that may be captured or not, and a return. -/
def popAndReturn : Body := #[.simple .nop, .simple .pop, .simple .ireturn]

theorem not_prefers (shared : List Bool) {choices choices' : List Bool} :
    ¬ shared ++ true :: choices ≤ shared ++ false :: choices' :=
  not_le_of_gt (List.Lex.append_left _ (List.Lex.rel Bool.false_lt_true) shared)

/-- A body that may consume nothing can hide the first path: after the first instruction, the empty
way back to the start of a round has been at the second alternation already, so that the capture of
the next instruction comes before passing over it. -/
theorem find?_not_first :
    optionalRounds.compile none [] = .ok (optionalRounds.matcher none) ∧
      (optionalRounds.matcher none).find? popAndReturn .empty =
        some ⟨3, Context.empty.storeToken ⟨0, "token"⟩ (.placed 1)⟩ ∧
      ¬ ∃ start choices, FirstPath (fun _ => True) (popAndReturn.tokensBesides none .empty)
        optionalRounds .empty 3 start choices
        (Context.empty.storeToken ⟨0, "token"⟩ (.placed 1)) := by
  refine ⟨rfl, by cbv, ?_⟩
  rintro ⟨start, choices, first⟩
  obtain ⟨places, path, -⟩ := first.path
  have earlier : Path (popAndReturn.tokensBesides none .empty) optionalRounds 0 0 .empty
      [true, true, false, true, false, true, false] _ 3
      (Context.empty.storeToken ⟨0, "token"⟩ (.placed 0)) :=
    .round (.right (.accept rfl rfl .done) (.left .done .done)) (Nat.lt_succ_self 0)
      (.round (.left .done (.right (.accept rfl rfl .done) .done)) (Nat.lt_succ_self 1)
        (.leave (.accept rfl rfl .done)))
  rcases Prod.Lex.toLex_le_toLex.mp (first.first earlier trivial) with before | ⟨rfl, le⟩
  · omega
  have tokens : popAndReturn.tokensBesides none .empty =
    [⟨.placed 0, .simple .nop⟩, ⟨.placed 1, .simple .pop⟩, ⟨.placed 2, .simple .ireturn⟩] := rfl
  rw [tokens] at path
  -- From the first instruction on, nothing but its capture leads anywhere.
  obtain ⟨token, here, ⟨-, op, -⟩ | ⟨_, _, -, op, -⟩ | ⟨rest, later, ⟨rfl, path⟩ | rfl⟩⟩ :=
    optionalRounds_cases path
  all_goals obtain rfl := Option.some.inj here
  · cases op
  · cases op
  · obtain ⟨token, here, ⟨-, op, -⟩ | ⟨rest, later, rfl, -, path⟩ | ⟨_, _, ⟨rfl, -⟩ | rfl⟩⟩ :=
      optionalRounds_cases path
    all_goals obtain rfl := Option.some.inj here
    · cases op
    · obtain ⟨token, here, ⟨-, -, same⟩ | ⟨_, _, -, op, -⟩ | ⟨_, _, ⟨rfl, -⟩ | rfl⟩⟩ :=
        optionalRounds_cases path
      all_goals obtain rfl := Option.some.inj here
      · exact absurd same (by decide)
      · cases op
      · exact not_prefers [true, true, false, true, false, true] le
      · exact not_prefers [true, true, false, true, false, true] le
    · exact not_prefers [true, true, false, true] le
    · exact not_prefers [true, true, false, true] le
  · exact not_prefers [true, true] le

end MutantSieve.Query
