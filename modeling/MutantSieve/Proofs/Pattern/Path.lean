import MutantSieve.Pattern.Program

namespace MutantSieve.Query

/-- The clauses consume the tokens from one offset to another and turn one context into another. A
repetition takes any finite number of rounds of its body. -/
inductive Derives (tokens : List Token) : Query → Nat → Context → Nat → Context → Prop
  | done {i c} : Derives tokens done i c i c
  | accept {p rest token i k c c' d} :
      tokens[i]? = some token → p.test token c = (true, c') →
      Derives tokens rest (i + 1) c' k d → Derives tokens (accept p rest) i c k d
  | reject {p rest token i k c c' d} :
      tokens[i]? = some token → p.negate.test token c = (true, c') →
      Derives tokens rest (i + 1) c' k d → Derives tokens (reject p rest) i c k d
  | left {left right rest i j k c c' d} :
      Derives tokens left i c j c' → Derives tokens rest j c' k d →
      Derives tokens (either left right rest) i c k d
  | right {left right rest i j k c c' d} :
      Derives tokens right i c j c' → Derives tokens rest j c' k d →
      Derives tokens (either left right rest) i c k d
  | leave {body rest i k c d} :
      Derives tokens rest i c k d → Derives tokens (repeated body rest) i c k d
  | round {body rest i j k c c' d} :
      Derives tokens body i c j c' → Derives tokens (repeated body rest) j c' k d →
      Derives tokens (repeated body rest) i c k d

/-- A way through the clauses, of which the first stands at the place `start`. The choices are
listed in order: `false` for the left side of an alternation and for leaving a repetition, `true`
for the right side and for another round. Each clause that the path comes to is listed with its
place and the offset; places count as the steps of a program do. A round consumes something. -/
inductive Path (tokens : List Token) :
    Query → (start : Nat) → Nat → Context → List Bool → List (Nat × Nat) → Nat → Context → Prop
  | done {start i c} : Path tokens done start i c [] [] i c
  | accept {p rest token start i k c c' d choices places} :
      tokens[i]? = some token → p.test token c = (true, c') →
      Path tokens rest (start + 1) (i + 1) c' choices places k d →
      Path tokens (accept p rest) start i c choices ((start, i) :: places) k d
  | reject {p rest token start i k c c' d choices places} :
      tokens[i]? = some token → p.negate.test token c = (true, c') →
      Path tokens rest (start + 1) (i + 1) c' choices places k d →
      Path tokens (reject p rest) start i c choices ((start, i) :: places) k d
  | left {left right rest start i j k c c' d choices places choices' places'} :
      Path tokens left (start + 1) i c choices places j c' →
      Path tokens rest (start + left.steps + 2 + right.steps) j c' choices' places' k d →
      Path tokens (either left right rest) start i c
        (false :: (choices ++ choices')) ((start, i) :: (places ++ places')) k d
  | right {left right rest start i j k c c' d choices places choices' places'} :
      Path tokens right (start + left.steps + 2) i c choices places j c' →
      Path tokens rest (start + left.steps + 2 + right.steps) j c' choices' places' k d →
      Path tokens (either left right rest) start i c
        (true :: (choices ++ choices')) ((start, i) :: (places ++ places')) k d
  | leave {body rest start i k c d choices places} :
      Path tokens rest (start + body.steps + 2) i c choices places k d →
      Path tokens (repeated body rest) start i c (false :: choices) ((start, i) :: places) k d
  | round {body rest start i j k c c' d choices places choices' places'} :
      Path tokens body (start + 1) i c choices places j c' → i < j →
      Path tokens (repeated body rest) start j c' choices' places' k d →
      Path tokens (repeated body rest) start i c
        (true :: (choices ++ choices')) ((start, i) :: (places ++ places')) k d

variable {tokens : List Token} {q : Query} {start i k : Nat} {c d : Context}
  {choices : List Bool} {places : List (Nat × Nat)}

theorem Path.le (path : Path tokens q start i c choices places k d) : i ≤ k := by
  induction path with
  | done => exact Nat.le_refl _
  | accept _ _ _ ih | reject _ _ _ ih => omega
  | left _ _ ihSide ih | right _ _ ihSide ih => omega
  | leave _ ih => exact ih
  | round _ _ _ ihBody ih => omega

/-- A path that consumes nothing changes nothing. -/
theorem Path.context_eq (path : Path tokens q start i c choices places k d) (still : k ≤ i) :
    d = c := by
  induction path with
  | done => rfl
  | accept _ _ rest _ | reject _ _ rest _ =>
    have := rest.le
    omega
  | left side rest ihSide ih | right side rest ihSide ih =>
    have := side.le
    have := rest.le
    rw [ih (by omega), ihSide (by omega)]
  | leave _ ih => exact ih still
  | round _ some rest _ _ =>
    have := rest.le
    omega

theorem Path.le_length (path : Path tokens q start i c choices places k d) :
    k = i ∨ k ≤ tokens.length := by
  induction path with
  | done => exact .inl rfl
  | accept here _ _ ih | reject here _ _ ih =>
    have := (List.getElem?_eq_some_iff.mp here).1
    omega
  | left _ _ ihSide ih | right _ _ ihSide ih | round _ _ _ ihSide ih => omega
  | leave _ ih => exact ih

/-- A path that consumes nothing beyond an offset is a path wherever the tokens up to there are. -/
theorem Path.transfer {tokens' : List Token} {n : Nat}
    (same : ∀ j < n, ∀ token, tokens[j]? = some token → tokens'[j]? = some token)
    (path : Path tokens q start i c choices places k d) (within : k ≤ n) :
    Path tokens' q start i c choices places k d := by
  induction path with
  | done => exact .done
  | accept here accepts rest ih =>
    have := rest.le
    exact .accept (same _ (by omega) _ here) accepts (ih within)
  | reject here rejects rest ih =>
    have := rest.le
    exact .reject (same _ (by omega) _ here) rejects (ih within)
  | left _ rest ihSide ih => exact .left (ihSide (Nat.le_trans rest.le within)) (ih within)
  | right _ rest ihSide ih => exact .right (ihSide (Nat.le_trans rest.le within)) (ih within)
  | leave _ ih => exact .leave (ih within)
  | round _ consumes rest ihBody ih =>
    exact .round (ihBody (Nat.le_trans rest.le within)) consumes (ih within)

theorem Path.take (path : Path tokens q start i c choices places k d) :
    Path (tokens.take k) q start i c choices places k d := by
  refine path.transfer (fun j before token here => ?_) (Nat.le_refl k)
  rwa [List.getElem?_take_of_lt before]

theorem Path.of_take {n : Nat} (path : Path (tokens.take n) q start i c choices places k d) :
    Path tokens q start i c choices places k d := by
  refine path.transfer (fun j _ token here => ?_) (Nat.le_refl k)
  rw [List.getElem?_take] at here
  split at here
  · exact here
  · cases here

theorem Path.derives (path : Path tokens q start i c choices places k d) :
    Derives tokens q i c k d := by
  induction path with
  | done => exact .done
  | accept here accepts _ ih => exact .accept here accepts ih
  | reject here rejects _ ih => exact .reject here rejects ih
  | left _ _ ihSide ih => exact .left ihSide ih
  | right _ _ ihSide ih => exact .right ihSide ih
  | leave _ ih => exact .leave ih
  | round _ _ _ ihBody ih => exact .round ihBody ih

/-- Dropping the rounds that consume nothing turns a derivation into a path. -/
theorem Derives.exists_path (derivation : Derives tokens q i c k d) (start : Nat) :
    ∃ choices places, Path tokens q start i c choices places k d := by
  induction derivation generalizing start with
  | done => exact ⟨_, _, .done⟩
  | accept here accepts _ ih =>
    obtain ⟨_, _, rest⟩ := ih (start + 1)
    exact ⟨_, _, .accept here accepts rest⟩
  | reject here rejects _ ih =>
    obtain ⟨_, _, rest⟩ := ih (start + 1)
    exact ⟨_, _, .reject here rejects rest⟩
  | left _ _ ihSide ih =>
    obtain ⟨_, _, side⟩ := ihSide (start + 1)
    obtain ⟨_, _, rest⟩ := ih _
    exact ⟨_, _, .left side rest⟩
  | right _ _ ihSide ih =>
    obtain ⟨_, _, side⟩ := ihSide _
    obtain ⟨_, _, rest⟩ := ih _
    exact ⟨_, _, .right side rest⟩
  | leave _ ih =>
    obtain ⟨_, _, rest⟩ := ih _
    exact ⟨_, _, .leave rest⟩
  | @round body rest i j k c c' d _ _ ihBody ih =>
    obtain ⟨_, _, round⟩ := ihBody (start + 1)
    obtain ⟨choices, places, others⟩ := ih start
    by_cases consumes : i < j
    · exact ⟨_, _, .round round consumes others⟩
    · have same : i = j := Nat.le_antisymm round.le (by omega)
      subst same
      rw [round.context_eq (Nat.le_refl _)] at others
      exact ⟨choices, places, others⟩

end MutantSieve.Query
