import MutantSieve.Proofs.Pattern.Path

namespace MutantSieve.Query

/-- The clauses may consume nothing. -/
def nullable : Query → Bool
  | done => true
  | accept _ _ | reject _ _ => false
  | either left right rest => (left.nullable || right.nullable) && rest.nullable
  | repeated _ rest => rest.nullable

/-- No repetition has a body that may consume nothing. -/
def productive : Query → Bool
  | done => true
  | accept _ rest | reject _ rest => rest.productive
  | either left right rest => left.productive && right.productive && rest.productive
  | repeated body rest => !body.nullable && body.productive && rest.productive

variable {tokens : List Token} {q : Query} {start i i' k k' p o : Nat} {c c' d d' : Context}
  {choices choices' : List Bool} {places places' : List (Nat × Nat)}

theorem Path.nullable (path : Path tokens q start i c choices places k d) (still : k ≤ i) :
    q.nullable = true := by
  induction path with
  | done => rfl
  | accept _ _ rest _ | reject _ _ rest _ =>
    have := rest.le
    omega
  | left side rest ihSide ih =>
    have := side.le
    have := rest.le
    simp [Query.nullable, ihSide (by omega), ih (by omega)]
  | right side rest ihSide ih =>
    have := side.le
    have := rest.le
    simp [Query.nullable, ihSide (by omega), ih (by omega)]
  | leave _ ih => exact ih still
  | round _ consumes rest _ _ =>
    have := rest.le
    omega

/-- The places of a path lie within its query and between its ends. -/
theorem Path.within (path : Path tokens q start i c choices places k d)
    (member : (p, o) ∈ places) : start ≤ p ∧ p < start + q.steps ∧ i ≤ o ∧ o ≤ k := by
  have ends := path.le
  induction path with
  | done => cases member
  | accept _ _ rest ih | reject _ _ rest ih =>
    have := rest.le
    simp only [List.mem_cons, Prod.mk.injEq] at member
    rw [steps]
    rcases member with ⟨rfl, rfl⟩ | later
    · omega
    · have := ih later rest.le
      omega
  | left side rest ihSide ih | right side rest ihSide ih =>
    have := side.le
    have := rest.le
    simp only [List.mem_cons, List.mem_append, Prod.mk.injEq] at member
    rw [steps]
    rcases member with ⟨rfl, rfl⟩ | inSide | later
    · omega
    · have := ihSide inSide side.le
      omega
    · have := ih later rest.le
      omega
  | leave rest ih =>
    simp only [List.mem_cons, Prod.mk.injEq] at member
    rw [steps]
    rcases member with ⟨rfl, rfl⟩ | later
    · omega
    · have := ih later rest.le
      omega
  | round body _ rest ihBody ih =>
    have := body.le
    have := rest.le
    simp only [List.mem_cons, List.mem_append, Prod.mk.injEq] at member
    rw [steps] at ih ⊢
    rcases member with ⟨rfl, rfl⟩ | inBody | later
    · omega
    · have := ihBody inBody body.le
      omega
    · have := ih later rest.le
      omega

/-- Some path through the query comes to a place before it consumes anything. -/
def Opens (tokens : List Token) (q : Query) (start p : Nat) : Prop :=
  ∃ i c choices places k d, Path tokens q start i c choices places k d ∧ (p, i) ∈ places

theorem Opens.within (opens : Opens tokens q start p) : start ≤ p ∧ p < start + q.steps := by
  obtain ⟨i, c, choices, places, k, d, path, first⟩ := opens
  have := path.within first
  omega

variable {left right body rest : Query}

theorem opens_accept {accepted : Predicate} (opens : Opens tokens (accept accepted rest) start p) :
    p = start := by
  obtain ⟨i, c, choices, places, k, d, path, first⟩ := opens
  cases path with
  | accept _ _ next =>
    rcases List.mem_cons.mp first with same | later
    · exact (Prod.mk.inj same).1
    · have := next.within later
      omega

theorem opens_reject {rejected : Predicate} (opens : Opens tokens (reject rejected rest) start p) :
    p = start := by
  obtain ⟨i, c, choices, places, k, d, path, first⟩ := opens
  cases path with
  | reject _ _ next =>
    rcases List.mem_cons.mp first with same | later
    · exact (Prod.mk.inj same).1
    · have := next.within later
      omega

theorem opens_either (opens : Opens tokens (either left right rest) start p) :
    p = start ∨ Opens tokens left (start + 1) p ∨ Opens tokens right (start + left.steps + 2) p ∨
      (left.nullable || right.nullable) = true ∧
        Opens tokens rest (start + left.steps + 2 + right.steps) p := by
  obtain ⟨i, c, choices, places, k, d, path, first⟩ := opens
  cases path with
  | left side next =>
    simp only [List.mem_cons, List.mem_append, Prod.mk.injEq] at first
    rcases first with ⟨same, -⟩ | inSide | later
    · exact .inl same
    · exact .inr (.inl ⟨_, _, _, _, _, _, side, inSide⟩)
    · have := next.within later
      have empty := side.nullable (by omega)
      obtain rfl : i = _ := Nat.le_antisymm side.le (by omega)
      exact .inr (.inr (.inr ⟨by simp [empty], _, _, _, _, _, _, next, later⟩))
  | right side next =>
    simp only [List.mem_cons, List.mem_append, Prod.mk.injEq] at first
    rcases first with ⟨same, -⟩ | inSide | later
    · exact .inl same
    · exact .inr (.inr (.inl ⟨_, _, _, _, _, _, side, inSide⟩))
    · have := next.within later
      have empty := side.nullable (by omega)
      obtain rfl : i = _ := Nat.le_antisymm side.le (by omega)
      exact .inr (.inr (.inr ⟨by simp [empty], _, _, _, _, _, _, next, later⟩))

theorem opens_repeated (opens : Opens tokens (repeated body rest) start p) :
    p = start ∨ Opens tokens body (start + 1) p ∨
      Opens tokens rest (start + body.steps + 2) p := by
  obtain ⟨i, c, choices, places, k, d, path, first⟩ := opens
  cases path with
  | leave next =>
    rcases List.mem_cons.mp first with same | later
    · exact .inl (Prod.mk.inj same).1
    · exact .inr (.inr ⟨_, _, _, _, _, _, next, later⟩)
  | round round consumes next =>
    simp only [List.mem_cons, List.mem_append, Prod.mk.injEq] at first
    rcases first with ⟨same, -⟩ | inBody | later
    · exact .inl same
    · exact .inr (.inl ⟨_, _, _, _, _, _, round, inBody⟩)
    · have := next.within later
      omega

/-- A query may consume nothing if one path through it comes to a place after its last instruction
and another comes there before its first. -/
theorem Path.nullable_of_opens (path : Path tokens q start i c choices places k d)
    (last : (p, k) ∈ places) (opens : Opens tokens q start p) : q.nullable = true := by
  induction path with
  | done => cases last
  | accept _ _ next _ =>
    obtain rfl := opens_accept opens
    have := next.le
    rcases List.mem_cons.mp last with same | later
    · have := (Prod.mk.inj same).2
      omega
    · have := next.within later
      omega
  | reject _ _ next _ =>
    obtain rfl := opens_reject opens
    have := next.le
    rcases List.mem_cons.mp last with same | later
    · have := (Prod.mk.inj same).2
      omega
    · have := next.within later
      omega
  | left side next ihSide ih =>
    simp only [List.mem_cons, List.mem_append, Prod.mk.injEq] at last
    rcases last with ⟨-, still⟩ | inSide | later
    · exact (Path.left side next).nullable (Nat.le_of_eq still)
    · have := side.within inSide
      have empty := next.nullable (by omega)
      obtain rfl : _ = _ := Nat.le_antisymm next.le (by omega)
      rcases opens_either opens with rfl | inLeft | inRight | ⟨-, behind⟩
      · omega
      · simp [Query.nullable, ihSide inSide inLeft, empty]
      · have := inRight.within
        omega
      · have := behind.within
        omega
    · have := next.within later
      rcases opens_either opens with rfl | inLeft | inRight | ⟨sides, behind⟩
      · omega
      · have := inLeft.within
        omega
      · have := inRight.within
        omega
      · rw [Query.nullable, sides, ih later behind, Bool.and_self]
  | right side next ihSide ih =>
    simp only [List.mem_cons, List.mem_append, Prod.mk.injEq] at last
    rcases last with ⟨-, still⟩ | inSide | later
    · exact (Path.right side next).nullable (Nat.le_of_eq still)
    · have := side.within inSide
      have empty := next.nullable (by omega)
      obtain rfl : _ = _ := Nat.le_antisymm next.le (by omega)
      rcases opens_either opens with rfl | inLeft | inRight | ⟨-, behind⟩
      · omega
      · have := inLeft.within
        omega
      · simp [Query.nullable, ihSide inSide inRight, empty]
      · have := behind.within
        omega
    · have := next.within later
      rcases opens_either opens with rfl | inLeft | inRight | ⟨sides, behind⟩
      · omega
      · have := inLeft.within
        omega
      · have := inRight.within
        omega
      · rw [Query.nullable, sides, ih later behind, Bool.and_self]
  | leave next ih =>
    simp only [List.mem_cons, Prod.mk.injEq] at last
    rcases last with ⟨-, still⟩ | later
    · exact (Path.leave next).nullable (Nat.le_of_eq still)
    · have := next.within later
      rcases opens_repeated opens with rfl | inBody | behind
      · omega
      · have := inBody.within
        omega
      · exact ih later behind
  | round round _ next _ ih =>
    simp only [List.mem_cons, List.mem_append, Prod.mk.injEq] at last
    rcases last with ⟨-, still⟩ | inBody | later
    · have := round.le
      exact next.nullable (by omega)
    · have := round.within inBody
      exact next.nullable (by omega)
    · exact ih later opens

/-- Where no repetition has a body that may consume nothing, paths come to no clause twice without
an instruction in between. -/
theorem Path.nodup (path : Path tokens q start i c choices places k d)
    (productive : q.productive = true) : places.Nodup := by
  induction path with
  | done => exact List.nodup_nil
  | accept _ _ next ih | reject _ _ next ih =>
    refine List.nodup_cons.mpr ⟨fun again => ?_, ih productive⟩
    have := next.within again
    omega
  | left side next ihSide ih =>
    simp only [Query.productive, Bool.and_eq_true] at productive
    refine List.nodup_cons.mpr ⟨fun again => ?_, List.nodup_append.mpr
      ⟨ihSide productive.1.1, ih productive.2, fun place inSide _ later same => ?_⟩⟩
    · rcases List.mem_append.mp again with inSide | later
      · have := side.within inSide
        omega
      · have := next.within later
        omega
    · subst same
      have := side.within inSide
      have := next.within later
      omega
  | right side next ihSide ih =>
    simp only [Query.productive, Bool.and_eq_true] at productive
    refine List.nodup_cons.mpr ⟨fun again => ?_, List.nodup_append.mpr
      ⟨ihSide productive.1.2, ih productive.2, fun place inSide _ later same => ?_⟩⟩
    · rcases List.mem_append.mp again with inSide | later
      · have := side.within inSide
        omega
      · have := next.within later
        omega
    · subst same
      have := side.within inSide
      have := next.within later
      omega
  | leave next ih =>
    simp only [Query.productive, Bool.and_eq_true] at productive
    refine List.nodup_cons.mpr ⟨fun again => ?_, ih productive.2⟩
    have := next.within again
    omega
  | round round consumes next ihBody ih =>
    have parts := productive
    simp only [Query.productive, Bool.and_eq_true, Bool.not_eq_true'] at parts
    refine List.nodup_cons.mpr ⟨fun again => ?_, List.nodup_append.mpr
      ⟨ihBody parts.1.2, ih productive, fun ⟨p, o⟩ inBody _ later same => ?_⟩⟩
    · rcases List.mem_append.mp again with inBody | later
      · have := round.within inBody
        omega
      · have := next.within later
        omega
    · subst same
      have inside := round.within inBody
      have := next.within later
      obtain rfl : o = _ := Nat.le_antisymm inside.2.2.2 (by omega)
      -- The place ends one round and begins the next, so a round could be empty.
      rcases opens_repeated ⟨_, _, _, _, _, _, next, later⟩ with rfl | opens | behind
      · omega
      · simp [round.nullable_of_opens inBody opens] at parts
      · have := behind.within
        omega

end MutantSieve.Query
