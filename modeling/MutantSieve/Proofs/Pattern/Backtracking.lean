import MutantSieve.Pattern.Matcher
import MutantSieve.Proofs.Pattern.Path
import Mathlib.Data.Bool.Basic
import Mathlib.Data.List.Lex

namespace MutantSieve.Query

/-- What a search does once some clauses are satisfied: from an offset and a context it goes on to a
match or has to come back. -/
abbrev Onward := Nat → Context → Option Match

/-- One token that a predicate accepts, and onward. -/
def consume (tokens : List Token) (p : Predicate) (i : Nat) (c : Context) (next : Onward) :
    Option Match :=
  match tokens[i]? with
  | some token => if (p.test token c).1 then next (i + 1) (p.test token c).2 else none
  | none => none

/-- Rounds through a body, as few as possible: leaving comes before another round. A round that
consumes nothing is given up, since it leads back to where leaving has been tried. -/
def rounds (tokens : List Token) (body : Nat → Context → Onward → Option Match) (leave : Onward)
    (i : Nat) (c : Context) : Option Match :=
  (leave i c).or (body i c fun j d =>
    if _more : i < j ∧ j ≤ tokens.length then rounds tokens body leave j d else none)
termination_by tokens.length - i

/-- Goes through the clauses depth first, the left side of an alternation before the right, and
onward from the first way through them that leads to a match. -/
def backtrack (tokens : List Token) : Query → Nat → Context → Onward → Option Match
  | done, i, c, next => next i c
  | accept p rest, i, c, next =>
    consume tokens p i c fun j d => backtrack tokens rest j d next
  | reject p rest, i, c, next =>
    consume tokens p.negate i c fun j d => backtrack tokens rest j d next
  | either left right rest, i, c, next =>
    (backtrack tokens left i c fun j d => backtrack tokens rest j d next).or
      (backtrack tokens right i c fun j d => backtrack tokens rest j d next)
  | repeated body rest, i, c, next =>
    rounds tokens (backtrack tokens body) (fun j d => backtrack tokens rest j d next) i c

/-- Nothing is left to do: a match ends here. -/
def stop : Onward := fun k d => some ⟨k, d⟩

/-- Tries each offset from the first on, and takes the first way through all clauses. -/
def scan (tokens : List Token) (q : Query) (c : Context) : Option Match :=
  (List.range (tokens.length + 1)).findSome? fun start => q.backtrack tokens start c stop

variable {tokens : List Token} {q : Query} {start i k : Nat} {c d : Context} {next : Onward}
  {r : Match} {choices choices' : List Bool} {places : List (Nat × Nat)}

theorem consume_eq_some {p : Predicate} (found : consume tokens p i c next = some r) :
    ∃ token c', tokens[i]? = some token ∧ p.test token c = (true, c') ∧
      next (i + 1) c' = some r := by
  rw [consume] at found
  split at found
  · next token here =>
    split at found
    · next accepts => exact ⟨token, _, here, Prod.ext accepts rfl, found⟩
    · cases found
  · cases found

theorem consume_of_accepts {p : Predicate} {token : Token} (here : tokens[i]? = some token)
    (accepts : p.test token c = (true, d)) : consume tokens p i c next = next (i + 1) d := by
  simp only [consume, here, accepts, if_true]

/-- Onward from the end of a round that began at an offset: another round, or leaving. -/
def nextRound (tokens : List Token) (body rest : Query) (next : Onward) (i : Nat) : Onward :=
  fun j d =>
    if i < j ∧ j ≤ tokens.length then (repeated body rest).backtrack tokens j d next else none

theorem nextRound_eq_some {body rest : Query} {j : Nat} :
    nextRound tokens body rest next i j d = some r ↔
      (i < j ∧ j ≤ tokens.length) ∧ (repeated body rest).backtrack tokens j d next = some r := by
  rw [nextRound]
  split <;> simp_all

theorem backtrack_repeated (body rest : Query) :
    (repeated body rest).backtrack tokens i c next = (rest.backtrack tokens i c next).or
      (body.backtrack tokens i c (nextRound tokens body rest next i)) := by
  rw [backtrack, rounds]
  rfl

/-- The path with these choices ends where a search goes on to a match. -/
def Leads (tokens : List Token) (q : Query) (start i : Nat) (c : Context) (next : Onward)
    (choices : List Bool) (r : Match) : Prop :=
  ∃ places k d, Path tokens q start i c choices places k d ∧ next k d = some r

/-- What a search finds, some path leads to. -/
theorem backtrack_sound (found : q.backtrack tokens i c next = some r) (start : Nat) :
    ∃ choices, Leads tokens q start i c next choices r := by
  induction q generalizing start i c next with
  | done => exact ⟨_, _, i, c, .done, found⟩
  | accept p rest ih =>
    obtain ⟨token, c', here, accepts, onward⟩ := consume_eq_some found
    obtain ⟨_, _, k, d, path, ends⟩ := ih onward (start + 1)
    exact ⟨_, _, k, d, .accept here accepts path, ends⟩
  | reject p rest ih =>
    obtain ⟨token, c', here, rejects, onward⟩ := consume_eq_some found
    obtain ⟨_, _, k, d, path, ends⟩ := ih onward (start + 1)
    exact ⟨_, _, k, d, .reject here rejects path, ends⟩
  | either left right rest ihLeft ihRight ih =>
    rcases Option.or_eq_some_iff.mp found with inLeft | ⟨-, inRight⟩
    · obtain ⟨_, _, j, c', side, onward⟩ := ihLeft inLeft (start + 1)
      obtain ⟨_, _, k, d, path, ends⟩ := ih onward _
      exact ⟨_, _, k, d, .left side path, ends⟩
    · obtain ⟨_, _, j, c', side, onward⟩ := ihRight inRight _
      obtain ⟨_, _, k, d, path, ends⟩ := ih onward _
      exact ⟨_, _, k, d, .right side path, ends⟩
  | repeated body rest ihBody ih =>
    -- Each round leaves fewer tokens.
    induction left : tokens.length - i using Nat.strongRecOn generalizing i c
    rename_i fewer
    rw [backtrack_repeated] at found
    rcases Option.or_eq_some_iff.mp found with leaves | ⟨-, again⟩
    · obtain ⟨_, _, k, d, path, ends⟩ := ih leaves _
      exact ⟨_, _, k, d, .leave path, ends⟩
    · obtain ⟨_, _, j, c', round, onward⟩ := ihBody again (start + 1)
      obtain ⟨more, onward⟩ := nextRound_eq_some.mp onward
      obtain ⟨_, _, k, d, path, ends⟩ := fewer (tokens.length - j) (by omega) onward rfl
      exact ⟨_, _, k, d, .round round more.1 path, ends⟩

/-- Where the two part, the first takes the preferred side. -/
def Before (choices choices' : List Bool) : Prop :=
  ∃ shared later later', choices = shared ++ false :: later ∧ choices' = shared ++ true :: later'

theorem before_cons (later later' : List Bool) : Before (false :: later) (true :: later') :=
  ⟨[], later, later', rfl, rfl⟩

theorem Before.append (before : Before choices choices') (more more' : List Bool) :
    Before (choices ++ more) (choices' ++ more') := by
  obtain ⟨shared, later, later', rfl, rfl⟩ := before
  exact ⟨shared, later ++ more, later' ++ more', by simp, by simp⟩

theorem Before.append_left (shared : List Bool) (before : Before choices choices') :
    Before (shared ++ choices) (shared ++ choices') := by
  obtain ⟨common, later, later', rfl, rfl⟩ := before
  exact ⟨shared ++ common, later, later', by simp, by simp⟩

theorem Before.lt (before : Before choices choices') : choices < choices' := by
  obtain ⟨shared, later, later', rfl, rfl⟩ := before
  exact List.Lex.append_left _ (List.Lex.rel Bool.false_lt_true) shared

/-- What is found is this match, or another to which a way leads that is preferred to the one with
these choices. -/
def FindsFirst (found : Option Match) (Way : List Bool → Match → Prop) (choices : List Bool)
    (r : Match) : Prop :=
  found = some r ∨ ∃ r' choices', found = some r' ∧ Way choices' r' ∧ Before choices' choices

section

variable {found found' : Option Match} {Way Way' : List Bool → Match → Prop}

theorem FindsFirst.mono (first : FindsFirst found Way choices r)
    (further : ∀ choices' r', Way choices' r' → Way' choices' r') :
    FindsFirst found Way' choices r := by
  rcases first with same | ⟨r', choices', other, way, before⟩
  · exact .inl same
  · exact .inr ⟨r', choices', other, further _ _ way, before⟩

theorem FindsFirst.cons (first : FindsFirst found Way choices r) (choice : Bool)
    (further : ∀ choices' r', Way choices' r' → Way' (choice :: choices') r') :
    FindsFirst found Way' (choice :: choices) r := by
  rcases first with same | ⟨r', choices', other, way, before⟩
  · exact .inl same
  · exact .inr ⟨r', _, other, further _ _ way, before.append_left [choice]⟩

theorem FindsFirst.or_left (first : FindsFirst found Way choices r) :
    FindsFirst (found.or found') Way choices r := by
  rcases first with same | ⟨r', choices', other, preferred⟩
  · exact .inl (by rw [same, Option.some_or])
  · exact .inr ⟨r', choices', by rw [other, Option.some_or], preferred⟩

/-- What is found on the left side is preferred to all on the right. -/
theorem FindsFirst.or_right (sound : ∀ r', found = some r' → ∃ choices', Way (false :: choices') r')
    (second : FindsFirst found' Way (true :: choices) r) :
    FindsFirst (found.or found') Way (true :: choices) r := by
  cases first : found with
  | none => rwa [Option.none_or]
  | some r' =>
    obtain ⟨choices', way⟩ := sound r' first
    exact .inr ⟨r', _, Option.some_or, way, before_cons _ _⟩

end

/-- A search through a part of the clauses and onward finds first what lies behind a path through
the part and a way onward from its end, if the part and the rest of the search each do. -/
theorem FindsFirst.then {part : Query} (onward : Onward)
    (Further : Nat → Context → List Bool → Match → Prop) {later : List Bool}
    (path : Path tokens part start i c choices places k d)
    (first : ∀ {r}, onward k d = some r → FindsFirst (part.backtrack tokens i c onward)
      (Leads tokens part start i c onward) choices r)
    (sound : ∀ {j e r}, onward j e = some r → ∃ later, Further j e later r)
    (further : FindsFirst (onward k d) (Further k d) later r) :
    FindsFirst (part.backtrack tokens i c onward) (fun all r' => ∃ choices' places' j e later',
      all = choices' ++ later' ∧ Path tokens part start i c choices' places' j e ∧
        Further j e later' r') (choices ++ later) r := by
  have preferred {r : Match} (found : onward k d = some r) :
      FindsFirst (part.backtrack tokens i c onward) (fun all r' => ∃ choices' places' j e later',
        all = choices' ++ later' ∧ Path tokens part start i c choices' places' j e ∧
          Further j e later' r') (choices ++ later) r := by
    rcases first found with same | ⟨r', choices', found', ⟨places', j, e, path', ends⟩, before⟩
    · exact .inl same
    · obtain ⟨later', further'⟩ := sound ends
      exact .inr ⟨r', _, found', ⟨choices', places', j, e, later', rfl, path', further'⟩,
        before.append _ _⟩
  rcases further with found | ⟨r', later', found, further', before⟩
  · exact preferred found
  · rcases preferred found with same | better
    · exact .inr ⟨r', _, same, ⟨choices, places, k, d, later', rfl, path, further'⟩,
        before.append_left _⟩
    · exact .inr better

/-- A search that may go on from the end of a path to a match finds that match, or one to which it
follows a path that it prefers. -/
theorem backtrack_first (path : Path tokens q start i c choices places k d)
    (ends : next k d = some r) :
    FindsFirst (q.backtrack tokens i c next) (Leads tokens q start i c next) choices r := by
  induction path generalizing next r with
  | done => exact .inl ends
  | accept here accepts _ ih =>
    rw [backtrack, consume_of_accepts here accepts]
    exact (ih ends).mono fun _ _ ⟨_, k, d, path, ends⟩ =>
      ⟨_, k, d, .accept here accepts path, ends⟩
  | reject here rejects _ ih =>
    rw [backtrack, consume_of_accepts here rejects]
    exact (ih ends).mono fun _ _ ⟨_, k, d, path, ends⟩ =>
      ⟨_, k, d, .reject here rejects path, ends⟩
  | @left left right rest start _ _ _ _ _ _ _ _ _ _ side _ ihSide ih =>
    rw [backtrack]
    have first := FindsFirst.then (fun j d => rest.backtrack tokens j d next)
      (fun j d => Leads tokens rest (start + left.steps + 2 + right.steps) j d next) side
      (fun found => ihSide found) (fun found => backtrack_sound found _) (ih ends)
    refine (first.cons false fun _ _ way => ?_).or_left
    obtain ⟨_, _, j, e, _, rfl, side, _, k, d, path, ends⟩ := way
    exact ⟨_, k, d, .left side path, ends⟩
  | @right left right rest start _ _ _ _ _ _ _ _ _ _ side _ ihSide ih =>
    rw [backtrack]
    have second := FindsFirst.then (fun j d => rest.backtrack tokens j d next)
      (fun j d => Leads tokens rest (start + left.steps + 2 + right.steps) j d next) side
      (fun found => ihSide found) (fun found => backtrack_sound found _) (ih ends)
    refine .or_right (fun r' found => ?_) (second.cons true fun _ _ way => ?_)
    · obtain ⟨_, _, j, e, side, onward⟩ := backtrack_sound found (start + 1)
      obtain ⟨_, _, k, d, path, ends⟩ := backtrack_sound onward _
      exact ⟨_, _, k, d, .left side path, ends⟩
    · obtain ⟨_, _, j, e, _, rfl, side, _, k, d, path, ends⟩ := way
      exact ⟨_, k, d, .right side path, ends⟩
  | leave _ ih =>
    rw [backtrack_repeated]
    exact ((ih ends).cons false fun _ _ ⟨_, k, d, path, ends⟩ =>
      ⟨_, k, d, .leave path, ends⟩).or_left
  | @round body rest start i j k c c' d _ _ later _ round consumes _ ihBody ih =>
    rw [backtrack_repeated]
    have within : j ≤ tokens.length := by
      have := round.le_length
      omega
    have again : nextRound tokens body rest next i j c' =
        (repeated body rest).backtrack tokens j c' next := if_pos ⟨consumes, within⟩
    have further : FindsFirst (nextRound tokens body rest next i j c') (fun later r =>
        i < j ∧ Leads tokens (repeated body rest) start j c' next later r) later r := by
      rw [again]
      exact (ih ends).mono fun _ _ leads => ⟨consumes, leads⟩
    have sound {j : Nat} {d : Context} {r : Match}
        (found : nextRound tokens body rest next i j d = some r) :
        ∃ later, i < j ∧ Leads tokens (repeated body rest) start j d next later r := by
      obtain ⟨more, found⟩ := nextRound_eq_some.mp found
      obtain ⟨later, leads⟩ := backtrack_sound found start
      exact ⟨later, more.1, leads⟩
    have second := FindsFirst.then (nextRound tokens body rest next i)
      (fun j d later r => i < j ∧ Leads tokens (repeated body rest) start j d next later r) round
      ihBody sound further
    refine .or_right (fun r' found => ?_) (second.cons true fun _ _ way => ?_)
    · obtain ⟨_, _, k, d, path, ends⟩ := backtrack_sound found _
      exact ⟨_, _, k, d, .leave path, ends⟩
    · obtain ⟨_, _, j, e, _, rfl, round, consumes, _, k, d, path, ends⟩ := way
      exact ⟨_, k, d, .round round consumes path, ends⟩

end MutantSieve.Query
