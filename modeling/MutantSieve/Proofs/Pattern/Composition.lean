import MutantSieve.Proofs.Pattern.Path

namespace MutantSieve

theorem Context.localIndex?_storeIndex (c : Context) (slot : Slot .localVariable)
    (number : UInt64) : (c.storeIndex slot number).localIndex? slot = some number := by
  have stored : (c.storeIndex slot number).get? slot.key = some (.index number) :=
    (c.get?_store slot.key slot.key (.index number) rfl).trans (if_pos rfl)
  rw [localIndex?, stored]
  rfl

namespace Predicate

/-- The slots of the leaves that capture. -/
def targets : Predicate → List SlotKey
  | plain _ | sameVariable _ | sameToken _ => []
  | captureVariable slot => [slot.key]
  | captureToken slot => [slot.key]
  | and p q => p.targets ++ q.targets
  | or p q => p.targets ++ q.targets
  | negate p => p.targets

variable {p q : Predicate} {token : Token} {c : Context} {key : SlotKey}

/-- A test leaves a slot alone that no leaf captures into. -/
theorem get?_test (spared : key ∉ p.targets) : (p.test token c).2.get? key = c.get? key := by
  induction p generalizing c with
  | plain | sameVariable | sameToken => rfl
  | captureVariable slot =>
    rw [test]
    split
    · exact Context.get?_store_of_ne rfl (List.ne_of_not_mem_cons spared)
    · rfl
  | captureToken slot =>
    exact Context.get?_store_of_ne rfl (List.ne_of_not_mem_cons spared)
  | and p q ihp ihq =>
    rw [targets, List.mem_append, not_or] at spared
    simp only [test]
    split
    · split
      · exact (ihq spared.2).trans (ihp spared.1)
      · rfl
    · split
      · rfl
      · exact ihp spared.1
  | or p q ihp ihq =>
    rw [targets, List.mem_append, not_or] at spared
    simp only [test]
    split
    · exact ihp spared.1
    · exact (ihq spared.2).trans (ihp spared.1)
  | negate p ih =>
    simp only [test]
    split
    · rfl
    · exact ih spared

theorem test_and : ((and p q).test token c).1 =
    ((p.test token c).1 && (q.test token (p.test token c).2).1) := by
  rw [test]
  cases (p.test token c).1 <;> simp

theorem test_or : ((or p q).test token c).1 =
    ((p.test token c).1 || (q.test token (p.test token c).2).1) := by
  rw [test]
  cases accepted : (p.test token c).1 <;> simp [accepted]

theorem test_negate : ((negate p).test token c).1 = !(p.test token c).1 := rfl

/-- A test that looks at the instruction alone captures nothing that `and` could drop. -/
theorem test_plain_and {t : InstructionTest} : ((plain t).and q).test token c =
    if t.accepts token.instruction = true then q.test token c else (false, c) := by
  rw [test, test]
  have idle : (plain t).captures = false := rfl
  by_cases accepted : t.accepts token.instruction = true <;> simp [accepted, idle]

theorem test_foldl_or {α : Type} {make : α → Predicate} {accepts : α → Bool} {first : Bool}
    (tests : ∀ a, (make a).test token c = (accepts a, c)) (here : p.test token c = (first, c))
    (rest : List α) :
    ((rest.map make).foldl or p).test token c = (first || rest.any accepts, c) := by
  induction rest generalizing p first with
  | nil => simpa using here
  | cons a rest ih =>
    have either : (p.or (make a)).test token c = (first || accepts a, c) := by
      cases first <;> simp [test, here, tests]
    rw [List.map_cons, List.foldl_cons, ih either, List.any_cons, Bool.or_assoc]

/-- One of several predicates accepts a token, if none of them changes the context. -/
theorem test_anyOf {α : Type} {make : α → Predicate} {accepts : α → Bool}
    (tests : ∀ a, (make a).test token c = (accepts a, c)) (choices : List α) :
    (anyOf (choices.map make)).test token c = (choices.any accepts, c) := by
  cases choices with
  | nil => rfl
  | cons a rest => exact test_foldl_or tests (tests a) rest

end Predicate

namespace Query

variable {tokens : List Token} {p : Predicate} {q r : Query} {i k n : Nat} {c d : Context}
  {key : SlotKey}

/-- The slots of the leaves that capture. -/
def targets : Query → List SlotKey
  | done => []
  | accept p rest => p.targets ++ rest.targets
  | reject p rest => p.targets ++ rest.targets
  | either left right rest => left.targets ++ right.targets ++ rest.targets
  | repeated body rest => body.targets ++ rest.targets

/-- A derivation leaves a slot alone that no leaf captures into. -/
theorem Derives.get?_eq (derivation : Derives tokens q i c k d) (spared : key ∉ q.targets) :
    d.get? key = c.get? key := by
  induction derivation with
  | done => rfl
  | @accept p _ token _ _ c _ _ _ accepts _ ih =>
    rw [targets, List.mem_append, not_or] at spared
    have tested : (p.test token c).2.get? key = c.get? key := Predicate.get?_test spared.1
    rw [accepts] at tested
    exact (ih spared.2).trans tested
  | @reject p _ token _ _ c _ _ _ rejects _ ih =>
    rw [targets, List.mem_append, not_or] at spared
    have tested : (p.negate.test token c).2.get? key = c.get? key := Predicate.get?_test spared.1
    rw [rejects] at tested
    exact (ih spared.2).trans tested
  | left _ _ ihSide ih =>
    rw [targets, List.mem_append, List.mem_append, not_or, not_or] at spared
    exact (ih spared.2).trans (ihSide spared.1.1)
  | right _ _ ihSide ih =>
    rw [targets, List.mem_append, List.mem_append, not_or, not_or] at spared
    exact (ih spared.2).trans (ihSide spared.1.2)
  | leave _ ih =>
    rw [targets, List.mem_append, not_or] at spared
    exact ih spared.2
  | round _ _ ihBody ih =>
    have inBody := spared
    rw [targets, List.mem_append, not_or] at inBody
    exact (ih spared).trans (ihBody inBody.1)

theorem Derives.le (derivation : Derives tokens q i c k d) : i ≤ k := by
  obtain ⟨choices, places, path⟩ := derivation.exists_path 0
  exact path.le

theorem Derives.le_length (derivation : Derives tokens q i c k d) (within : i ≤ tokens.length) :
    k ≤ tokens.length := by
  obtain ⟨choices, places, path⟩ := derivation.exists_path 0
  have := path.le_length
  omega

/-- The tokens behind the end of a derivation have no say in it. -/
theorem derives_take (within : k ≤ n) :
    Derives (tokens.take n) q i c k d ↔ Derives tokens q i c k d := by
  constructor
  · intro derivation
    obtain ⟨choices, places, path⟩ := derivation.exists_path 0
    exact path.of_take.derives
  · intro derivation
    obtain ⟨choices, places, path⟩ := derivation.exists_path 0
    refine (path.transfer (n := n) (fun j before token here => ?_) within).derives
    rwa [List.getElem?_take_of_lt before]

theorem derives_dropLast : Derives tokens.dropLast q i c tokens.dropLast.length d ↔
    Derives tokens q i c (tokens.length - 1) d := by
  rw [List.length_dropLast, List.dropLast_eq_take, derives_take (Nat.le_refl _)]

theorem derives_done : Derives tokens done i c k d ↔ k = i ∧ d = c := by
  constructor
  · intro derivation
    cases derivation
    exact ⟨rfl, rfl⟩
  · rintro ⟨rfl, rfl⟩
    exact .done

theorem derives_accept : Derives tokens (accept p q) i c k d ↔
    ∃ token c', tokens[i]? = some token ∧ p.test token c = (true, c') ∧
      Derives tokens q (i + 1) c' k d := by
  constructor
  · intro derivation
    cases derivation with
    | accept here accepts rest => exact ⟨_, _, here, accepts, rest⟩
  · rintro ⟨token, c', here, accepts, rest⟩
    exact .accept here accepts rest

theorem derives_matching : Derives tokens (matching p) i c k d ↔
    k = i + 1 ∧ ∃ token, tokens[i]? = some token ∧ p.test token c = (true, d) := by
  rw [matching, derives_accept]
  constructor
  · rintro ⟨token, c', here, accepts, rest⟩
    obtain ⟨rfl, rfl⟩ := derives_done.mp rest
    exact ⟨rfl, token, here, accepts⟩
  · rintro ⟨rfl, token, here, accepts⟩
    exact ⟨token, d, here, accepts, .done⟩

theorem derives_orElse :
    Derives tokens (q.orElse r) i c k d ↔ Derives tokens q i c k d ∨ Derives tokens r i c k d := by
  constructor
  · intro derivation
    cases derivation with
    | left side rest =>
      obtain ⟨rfl, rfl⟩ := derives_done.mp rest
      exact .inl side
    | right side rest =>
      obtain ⟨rfl, rfl⟩ := derives_done.mp rest
      exact .inr side
  · rintro (side | side)
    · exact .left side .done
    · exact .right side .done

theorem Derives.append {j : Nat} {c' : Context} (first : Derives tokens q i c j c')
    (second : Derives tokens r j c' k d) : Derives tokens (q ++ r) i c k d := by
  induction first with
  | done => exact second
  | accept here accepts _ ih => exact .accept here accepts (ih second)
  | reject here rejects _ ih => exact .reject here rejects (ih second)
  | left side _ _ ih => exact .left side (ih second)
  | right side _ _ ih => exact .right side (ih second)
  | leave _ ih => exact .leave (ih second)
  | round round _ _ ih => exact .round round (ih second)

theorem Derives.split (derivation : Derives tokens (q ++ r) i c k d) :
    ∃ j c', Derives tokens q i c j c' ∧ Derives tokens r j c' k d := by
  induction q generalizing i c k d with
  | done => exact ⟨i, c, .done, derivation⟩
  | accept p rest ih =>
    cases derivation with
    | accept here accepts later =>
      obtain ⟨j, c', first, second⟩ := ih later
      exact ⟨j, c', .accept here accepts first, second⟩
  | reject p rest ih =>
    cases derivation with
    | reject here rejects later =>
      obtain ⟨j, c', first, second⟩ := ih later
      exact ⟨j, c', .reject here rejects first, second⟩
  | either left right rest _ _ ih =>
    cases derivation with
    | left side later =>
      obtain ⟨j, c', first, second⟩ := ih later
      exact ⟨j, c', .left side first, second⟩
    | right side later =>
      obtain ⟨j, c', first, second⟩ := ih later
      exact ⟨j, c', .right side first, second⟩
  | repeated body rest _ ih =>
    generalize same : repeated body rest ++ r = s at derivation
    induction derivation with
    | leave later =>
      obtain ⟨rfl, rfl⟩ := Query.repeated.inj same
      obtain ⟨j, c', first, second⟩ := ih later
      exact ⟨j, c', .leave first, second⟩
    | round round _ _ again =>
      obtain ⟨rfl, rfl⟩ := Query.repeated.inj same
      obtain ⟨j, c', first, second⟩ := again rfl
      exact ⟨j, c', .round round first, second⟩
    | done | accept | reject | left | right => cases same

theorem derives_append : Derives tokens (q ++ r) i c k d ↔
    ∃ j c', Derives tokens q i c j c' ∧ Derives tokens r j c' k d :=
  ⟨Derives.split, fun ⟨_, _, first, second⟩ => first.append second⟩

/-- Any number of tokens that a predicate accepts, if it leaves the context alone. -/
theorem derives_zeroOrMore_matching (idle : ∀ token, (p.test token c).2 = c)
    (within : k ≤ tokens.length) :
    Derives tokens (zeroOrMore (matching p)) i c k d ↔ i ≤ k ∧ d = c ∧
      ∀ j token, i ≤ j → j < k → tokens[j]? = some token → (p.test token c).1 = true := by
  constructor
  · intro derivation
    generalize same : zeroOrMore (matching p) = rounds at derivation
    induction derivation with
    | leave rest =>
      obtain ⟨rfl, rfl⟩ := Query.repeated.inj same
      obtain ⟨rfl, rfl⟩ := derives_done.mp rest
      exact ⟨Nat.le_refl _, rfl, fun j token from_ before => by omega⟩
    | @round body rest i j k c c' d first _ _ ih =>
      obtain ⟨rfl, rfl⟩ := Query.repeated.inj same
      obtain ⟨rfl, token, here, accepts⟩ := derives_matching.mp first
      obtain rfl : c' = c := (congrArg Prod.snd accepts).symm.trans (idle token)
      obtain ⟨le, rfl, others⟩ := ih idle within rfl
      refine ⟨by omega, rfl, fun j token' from_ before found => ?_⟩
      by_cases new : j = i
      · subst new
        obtain rfl := Option.some.inj (here.symm.trans found)
        exact congrArg Prod.fst accepts
      · exact others j token' (by omega) before found
    | done | accept | reject | left | right => cases same
  · rintro ⟨le, rfl, accepted⟩
    induction left : k - i generalizing i with
    | zero =>
      obtain rfl : i = k := by omega
      exact .leave .done
    | succ left ih =>
      have here : tokens[i]? = some tokens[i] := List.getElem?_eq_getElem (by omega)
      have accepts := accepted i _ (Nat.le_refl _) (by omega) here
      have later : Derives tokens (zeroOrMore (matching p)) (i + 1) d k d :=
        ih (by omega) (fun j token from_ => accepted j token (by omega)) (by omega)
      exact .round (.accept here (Prod.ext accepts (idle _)) .done) later

/-- Any number of tokens, whatever they are. -/
theorem derives_zeroOrMore_any (within : k ≤ tokens.length) :
    Derives tokens (zeroOrMore (matching .any)) i c k d ↔ i ≤ k ∧ d = c := by
  rw [derives_zeroOrMore_matching (fun _ => rfl) within]
  exact ⟨fun ⟨le, same, _⟩ => ⟨le, same⟩, fun ⟨le, same⟩ => ⟨le, same, fun _ _ _ _ _ => rfl⟩⟩

/-- A derivation up to the end of the tokens that ends with rounds of a single test. -/
theorem derives_append_rounds (idle : ∀ token c, (p.test token c).2 = c)
    (starts : i ≤ tokens.length) :
    Derives tokens (q ++ zeroOrMore (matching p)) i c tokens.length d ↔
      ∃ front back, tokens = front ++ back ∧ Derives front q i c front.length d ∧
        ∀ token ∈ back, (p.test token d).1 = true := by
  rw [derives_append]
  constructor
  · rintro ⟨j, c', first, rounds⟩
    have within := first.le_length starts
    obtain ⟨-, rfl, accepted⟩ :=
      (derives_zeroOrMore_matching (idle · c') (Nat.le_refl _)).mp rounds
    refine ⟨tokens.take j, tokens.drop j, (List.take_append_drop j tokens).symm, ?_, ?_⟩
    · rw [List.length_take_of_le within, derives_take (Nat.le_refl _)]
      exact first
    · intro token member
      obtain ⟨n, found⟩ := List.mem_iff_getElem?.mp member
      rw [List.getElem?_drop] at found
      exact accepted _ token (Nat.le_add_right _ _) (List.getElem?_eq_some_iff.mp found).1 found
  · rintro ⟨front, back, rfl, first, accepted⟩
    refine ⟨front.length, d, ?_, ?_⟩
    · rwa [← derives_take (Nat.le_refl _), List.take_left]
    · refine (derives_zeroOrMore_matching (idle · d) (Nat.le_refl _)).mpr ⟨by simp, rfl, ?_⟩
      intro j token from_ _ found
      rw [List.getElem?_append_right from_] at found
      exact accepted token (List.mem_of_getElem? found)

/-- A derivation up to the end of the tokens that ends with a single test. -/
theorem derives_snoc : Derives tokens (q ++ matching p) i c tokens.length d ↔
    ∃ last c', tokens.getLast? = some last ∧
      Derives tokens.dropLast q i c tokens.dropLast.length c' ∧ p.test last c' = (true, d) := by
  simp only [derives_append, derives_matching, derives_dropLast, List.getLast?_eq_getElem?]
  constructor
  · rintro ⟨j, c', first, ends, last, here, accepts⟩
    obtain rfl : j = tokens.length - 1 := by omega
    exact ⟨last, c', here, first, accepts⟩
  · rintro ⟨last, c', here, first, accepts⟩
    have nonempty := (List.getElem?_eq_some_iff.mp here).1
    exact ⟨_, c', first, by omega, last, here, accepts⟩

/-- The clauses derive some tokens up to the last one. -/
def MatchesEnd (tokens : List Token) (q : Query) (c : Context) : Prop :=
  ∃ start d, Derives tokens q start c tokens.length d

theorem matchesEnd_orElse :
    MatchesEnd tokens (q.orElse r) c ↔ MatchesEnd tokens q c ∨ MatchesEnd tokens r c := by
  simp only [MatchesEnd, derives_orElse, exists_or]

theorem matchesEnd_snoc : MatchesEnd tokens (q ++ matching p) c ↔
    ∃ last start c', tokens.getLast? = some last ∧
      Derives tokens.dropLast q start c tokens.dropLast.length c' ∧
      (p.test last c').1 = true := by
  constructor
  · rintro ⟨start, d, derivation⟩
    obtain ⟨last, c', here, before, accepts⟩ := derives_snoc.mp derivation
    exact ⟨last, start, c', here, before, congrArg Prod.fst accepts⟩
  · rintro ⟨last, start, c', here, before, accepts⟩
    exact ⟨start, _, derives_snoc.mpr ⟨last, c', here, before, Prod.ext accepts rfl⟩⟩

theorem matchesEnd_matching : MatchesEnd tokens (matching p) c ↔
    ∃ last, tokens.getLast? = some last ∧ (p.test last c).1 = true := by
  change MatchesEnd tokens (done ++ matching p) c ↔ _
  simp only [matchesEnd_snoc, derives_done]
  constructor
  · rintro ⟨last, start, _, here, ⟨-, rfl⟩, accepts⟩
    exact ⟨last, here, accepts⟩
  · rintro ⟨last, here, accepts⟩
    exact ⟨last, _, c, here, ⟨rfl, rfl⟩, accepts⟩

/-- A test that captures nothing, and a test after it, at the end of the tokens. -/
theorem matchesEnd_pair {t : InstructionTest} :
    MatchesEnd tokens (matching (.plain t) ++ matching p) c ↔
      ∃ last before, tokens.getLast? = some last ∧ (p.test last c).1 = true ∧
        tokens.dropLast.getLast? = some before ∧ t.accepts before.instruction = true := by
  rw [matchesEnd_snoc]
  constructor
  · rintro ⟨last, start, c', here, derivation, accepts⟩
    obtain ⟨before, _, found, nothing, accepts'⟩ := derives_snoc (q := done).mp derivation
    obtain ⟨-, rfl⟩ := derives_done.mp nothing
    obtain ⟨accepted, rfl⟩ := Prod.mk.inj accepts'
    exact ⟨last, before, here, accepts, found, accepted⟩
  · rintro ⟨last, before, here, accepts, found, accepted⟩
    refine ⟨last, _, c, here, derives_snoc (q := done).mpr ⟨before, c, found, .done, ?_⟩, accepts⟩
    exact Prod.ext accepted rfl

end Query

end MutantSieve
