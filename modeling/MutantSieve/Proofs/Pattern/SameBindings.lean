import MutantSieve.Proofs.Pattern.SlotUsage

namespace MutantSieve

/-- Two values count as the same if they are the same number, or one and the same token. A number
and a token never do. -/
inductive Value.Same : Value → Value → Prop
  | index {number} : Same (.index number) (.index number)
  | token {id} : Same (.token id) (.token id)

theorem Value.same_iff {v w : Value} : v.Same w ↔ v = w := by
  constructor
  · rintro (_ | _) <;> rfl
  · rintro rfl
    cases v with
    | index => exact .index
    | token => exact .token

theorem Value.rel_same_iff {v w : Option Value} : Option.Rel Value.Same v w ↔ v = w := by
  constructor
  · rintro (same | _)
    · rw [Value.same_iff.mp same]
    · rfl
  · rintro rfl
    cases v with
    | none => exact .none
    | some value => exact .some (Value.same_iff.mpr rfl)

namespace Context

variable {a b c : Context} {key : SlotKey} {value : Value}

theorem localIndex?_eq_some {slot : Slot .localVariable} {number : UInt64} :
    c.localIndex? slot = some number ↔ c.get? slot.key = some (.index number) := by
  rw [localIndex?, Option.bind_eq_some_iff]
  constructor
  · rintro ⟨_ | _, bound, ⟨⟩⟩
    exact bound
  · exact fun bound => ⟨_, bound, rfl⟩

theorem token?_eq_some {slot : Slot .instruction} {id : TokenId} :
    c.token? slot = some id ↔ c.get? slot.key = some (.token id) := by
  rw [token?, Option.bind_eq_some_iff]
  constructor
  · rintro ⟨_ | _, bound, ⟨⟩⟩
    exact bound
  · exact fun bound => ⟨_, bound, rfl⟩

theorem sameBindings_iff_get? :
    a.sameBindings b = true ↔ ∀ key, a.get? key = b.get? key := by
  rw [sameBindings_iff]
  exact ⟨fun same key => by rw [same], ext_get?⟩

/-- Each slot is bound in both contexts, to the same, or in neither. -/
theorem sameBindings_iff_rel :
    a.sameBindings b = true ↔ ∀ key, Option.Rel Value.Same (a.get? key) (b.get? key) := by
  rw [sameBindings_iff_get?]
  exact forall_congr' fun _ => Value.rel_same_iff.symm

theorem sameBindings_equivalence : Equivalence fun a b : Context => a.sameBindings b = true where
  refl _ := sameBindings_iff_get?.mpr fun _ => rfl
  symm same := sameBindings_iff_get?.mpr fun key => (sameBindings_iff_get?.mp same key).symm
  trans first second := sameBindings_iff_get?.mpr fun key =>
    (sameBindings_iff_get?.mp first key).trans (sameBindings_iff_get?.mp second key)

/-- A test answers the same in two contexts with the same bindings. What it changes, it changes
alike, so they have the same bindings afterwards. -/
theorem sameBindings_test (same : a.sameBindings b = true) (p : Predicate) (token : Token) :
    (p.test token a).1 = (p.test token b).1 ∧
      (p.test token a).2.sameBindings (p.test token b).2 = true := by
  have everywhere := sameBindings_iff_get?.mp same
  obtain ⟨answer, change, -⟩ := Predicate.sameTest token fun key (_ : key ∈ p.reads) =>
    everywhere key
  refine ⟨answer, sameBindings_iff_get?.mpr fun key => ?_⟩
  rcases change key with same | ⟨left, right⟩
  · exact same
  · rw [left, right, everywhere key]

/-- For each slot and each value of its kind there is a test that accepts exactly in the contexts
that bind the one to the other. -/
theorem exists_test (typed : value.kind = key.kind) :
    ∃ (p : Predicate) (token : Token), ∀ c,
      (p.test token c).1 = true ↔ c.get? key = some value := by
  obtain ⟨serial, kind, name⟩ := key
  subst typed
  cases value with
  | index number =>
    refine ⟨.sameVariable ⟨serial, name⟩, ⟨.placed 0, .access .iload number⟩, fun c => ?_⟩
    exact decide_eq_true_iff.trans localIndex?_eq_some
  | token id =>
    refine ⟨.sameToken ⟨serial, name⟩, ⟨id, .frame⟩, fun c => ?_⟩
    exact decide_eq_true_iff.trans token?_eq_some

/-- Two contexts have the same bindings if and only if no test answers differently in them. -/
theorem sameBindings_iff_test : a.sameBindings b = true ↔
    ∀ (p : Predicate) (token : Token), (p.test token a).1 = (p.test token b).1 := by
  refine ⟨fun same p token => (sameBindings_test same p token).1, fun same => ?_⟩
  refine sameBindings_iff_get?.mpr fun key => Option.ext fun value => ?_
  by_cases typed : value.kind = key.kind
  · obtain ⟨p, token, accepts⟩ := exists_test typed
    rw [← accepts, ← accepts, same]
  · have unbound (c : Context) : c.get? key ≠ some value := fun bound => typed (kind_of_get? bound)
    simp only [unbound]

/-- Having the same bindings is an equivalence relation of contexts: each slot is bound in both or in
neither, variables to equal numbers and instructions to one and the same token. A test answers the
same in both of two such contexts, and leaves two such contexts behind. -/
theorem sameBindings_congruence :
    (Equivalence fun a b : Context => a.sameBindings b = true) ∧
      (∀ a b : Context, a.sameBindings b = true ↔
        ∀ key, Option.Rel Value.Same (a.get? key) (b.get? key)) ∧
      ∀ (p : Predicate) (token : Token) (a b : Context), a.sameBindings b = true →
        (p.test token a).1 = (p.test token b).1 ∧
          (p.test token a).2.sameBindings (p.test token b).2 = true :=
  ⟨sameBindings_equivalence, fun _ _ => sameBindings_iff_rel,
    fun p token _ _ same => sameBindings_test same p token⟩

/-- A variable and an instruction. -/
def captured : Context :=
  (empty.storeIndex ⟨0, "var"⟩ 1).storeToken ⟨1, "first"⟩ (.placed 4)

/-- The variable was another one before it was captured a second time. -/
def recaptured : Context :=
  ((empty.storeIndex ⟨0, "var"⟩ 2).storeToken ⟨1, "first"⟩ (.placed 4)).storeIndex ⟨0, "var"⟩ 1

/-- Accepts an access of the variable and captures the instruction. -/
def accessToVariable : Predicate :=
  (Predicate.sameVariable ⟨0, "var"⟩).and (.captureToken ⟨1, "first"⟩)

theorem sameBindings_congruence_recaptured :
    captured.sameBindings recaptured = true ∧
      (accessToVariable.test ⟨.placed 7, .access .aload 1⟩ captured).1 =
        (accessToVariable.test ⟨.placed 7, .access .aload 1⟩ recaptured).1 ∧
      (accessToVariable.test ⟨.placed 7, .access .aload 1⟩ captured).2.sameBindings
        (accessToVariable.test ⟨.placed 7, .access .aload 1⟩ recaptured).2 = true := by
  obtain ⟨-, -, tested⟩ := sameBindings_congruence
  have same : captured.sameBindings recaptured = true := by decide
  exact ⟨same, tested accessToVariable ⟨.placed 7, .access .aload 1⟩ captured recaptured same⟩

end Context

end MutantSieve
