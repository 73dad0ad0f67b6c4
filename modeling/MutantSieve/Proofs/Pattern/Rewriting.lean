import MutantSieve.Proofs.Pattern.Composition
import MutantSieve.Proofs.Pattern.Matching
import MutantSieve.Proofs.Pattern.SlotDemand
import Mathlib

namespace MutantSieve.Query

/-- What a query derives, as a relation between offsets with their contexts. -/
def Carries (tokens : List Token) (q : Query) (a b : Nat × Context) : Prop :=
  Derives tokens q a.1 a.2 b.1 b.2

variable {tokens : List Token} {q r q' r' : Query}

theorem carries_done : Carries tokens done = Eq := by
  funext a b
  refine propext (derives_done.trans ⟨fun ⟨here, same⟩ => ?_, fun same => ?_⟩)
  · exact Prod.ext here.symm same.symm
  · exact ⟨congrArg Prod.fst same.symm, congrArg Prod.snd same.symm⟩

theorem carries_append :
    Carries tokens (q ++ r) = Relation.Comp (Carries tokens q) (Carries tokens r) := by
  funext a b
  refine propext (derives_append.trans ⟨?_, ?_⟩)
  · rintro ⟨j, c, first, second⟩
    exact ⟨(j, c), first, second⟩
  · rintro ⟨⟨j, c⟩, first, second⟩
    exact ⟨j, c, first, second⟩

theorem carries_orElse : Carries tokens (q.orElse r) = Carries tokens q ⊔ Carries tokens r := by
  funext a b
  exact propext derives_orElse

theorem carries_zeroOrMore :
    Carries tokens (zeroOrMore q) = Relation.ReflTransGen (Carries tokens q) := by
  funext a b
  refine propext ⟨fun derivation => ?_, fun rounds => ?_⟩
  · obtain ⟨i, c⟩ := a
    obtain ⟨k, d⟩ := b
    generalize same : zeroOrMore q = s at derivation
    change Derives tokens s i c k d at derivation
    induction derivation with
    | leave last _ =>
      obtain ⟨rfl, rfl⟩ := Query.repeated.inj same
      obtain ⟨rfl, rfl⟩ := derives_done.mp last
      exact .refl
    | round round _ _ again =>
      obtain ⟨rfl, rfl⟩ := Query.repeated.inj same
      exact .head (b := (_, _)) round (again rfl)
    | done | accept | reject | left | right => cases same
  · induction rounds using Relation.ReflTransGen.head_induction_on with
    | refl => exact .leave .done
    | head round _ ih => exact .round round ih

/-- One query may stand for another in any place: it asks the same of the slots that are bound
before it, binds the same slots and derives the same. -/
structure Interchangeable (q r : Query) : Prop where
  demanded : q.demanded = r.demanded
  provided : q.provided = r.provided
  carries (tokens : List Token) : Carries tokens q = Carries tokens r

namespace Interchangeable

theorem refl (q : Query) : Interchangeable q q := ⟨rfl, rfl, fun _ => rfl⟩

theorem append (first : Interchangeable q q') (second : Interchangeable r r') :
    Interchangeable (q ++ r) (q' ++ r') where
  demanded := by
    rw [demanded_append, demanded_append, first.demanded, first.provided, second.demanded]
  provided := by rw [provided_append, provided_append, first.provided, second.provided]
  carries tokens := by rw [carries_append, carries_append, first.carries, second.carries]

theorem orElse (left : Interchangeable q q') (right : Interchangeable r r') :
    Interchangeable (q.orElse r) (q'.orElse r') where
  demanded := by rw [demanded_orElse, demanded_orElse, left.demanded, right.demanded]
  provided := by rw [provided_orElse, provided_orElse, left.provided, right.provided]
  carries tokens := by rw [carries_orElse, carries_orElse, left.carries, right.carries]

theorem zeroOrMore (body : Interchangeable q q') :
    Interchangeable q.zeroOrMore q'.zeroOrMore where
  demanded := by rw [demanded_zeroOrMore, demanded_zeroOrMore, body.demanded]
  provided := rfl
  carries tokens := by rw [carries_zeroOrMore, carries_zeroOrMore, body.carries]

end Interchangeable

/-- The laws. -/
inductive Rewrites : Query → Query → Prop
  | swap (a b : Query) : Rewrites (a.orElse b) (b.orElse a)
  | regroup (a b c : Query) : Rewrites ((a.orElse b).orElse c) (a.orElse (b.orElse c))
  | distribute (a b c : Query) : Rewrites (a.orElse b ++ c) ((a ++ c).orElse (b ++ c))
  | flatten (a : Query) : Rewrites (zeroOrMore (zeroOrMore a)) (zeroOrMore a)
  | unroll (a : Query) : Rewrites (zeroOrMore a) (done.orElse (a ++ zeroOrMore a))
  | rotate (a : Query) : Rewrites (a ++ zeroOrMore a) (zeroOrMore a ++ a)

theorem demanded_again (q : Query) : q.demanded ∪ q.demanded \ q.provided = q.demanded :=
  Finset.union_eq_left.mpr Finset.sdiff_subset

theorem Rewrites.demanded_eq (rewrites : Rewrites q r) : q.demanded = r.demanded := by
  cases rewrites with
  | swap a b => rw [demanded_orElse, demanded_orElse, Finset.union_comm]
  | regroup a b c => simp only [demanded_orElse, Finset.union_assoc]
  | distribute a b c =>
    rw [demanded_append, demanded_orElse, demanded_orElse, demanded_append, demanded_append,
      provided_orElse, Finset.union_union_union_comm]
    exact congrArg _ (sdiff_inf ..)
  | flatten a => rw [demanded_zeroOrMore]
  | unroll a =>
    rw [demanded_orElse, demanded_append, demanded_zeroOrMore, demanded_again]
    exact (Finset.empty_union _).symm
  | rotate a =>
    rw [demanded_append, demanded_append, demanded_zeroOrMore, provided_zeroOrMore,
      demanded_again, Finset.sdiff_empty, Finset.union_self]

theorem Rewrites.provided_eq (rewrites : Rewrites q r) : q.provided = r.provided := by
  cases rewrites with
  | swap a b => rw [provided_orElse, provided_orElse, Finset.inter_comm]
  | regroup a b c => simp only [provided_orElse, Finset.inter_assoc]
  | distribute a b c =>
    simp only [provided_append, provided_orElse, Finset.inter_union_distrib_right]
  | flatten a => rw [provided_zeroOrMore, provided_zeroOrMore]
  | unroll a =>
    rw [provided_orElse, provided_zeroOrMore]
    exact (Finset.empty_inter _).symm
  | rotate a => rw [provided_append, provided_append, Finset.union_comm]

theorem comp_sup {α : Type} (r s t : α → α → Prop) :
    Relation.Comp (r ⊔ s) t = Relation.Comp r t ⊔ Relation.Comp s t := by
  funext a b
  simp [Relation.Comp, or_and_right, exists_or]

theorem Rewrites.carries_eq (rewrites : Rewrites q r) : Carries tokens q = Carries tokens r := by
  cases rewrites with
  | swap a b => rw [carries_orElse, carries_orElse, sup_comm]
  | regroup a b c => simp only [carries_orElse, sup_assoc]
  | distribute a b c => simp only [carries_append, carries_orElse, comp_sup]
  | flatten a => rw [carries_zeroOrMore, carries_zeroOrMore, Relation.reflTransGen_eq_self]
  | unroll a =>
    rw [carries_orElse, carries_append, carries_zeroOrMore, carries_done]
    funext x y
    exact propext Relation.ReflTransGen.cases_head_iff
  | rotate a =>
    rw [carries_append, carries_append, carries_zeroOrMore]
    funext x y
    exact propext (Relation.TransGen.head'_iff.symm.trans Relation.TransGen.tail'_iff)

/-- A query with a place for another one in it. -/
inductive Surroundings where
  | hole
  | sequence (before : Query) (inner : Surroundings) (after : Query)
  | leftOf (inner : Surroundings) (right : Query)
  | rightOf (left : Query) (inner : Surroundings)
  | rounds (inner : Surroundings)

/-- Puts a query into the place. -/
def Surroundings.fill (q : Query) : Surroundings → Query
  | hole => q
  | sequence before inner after => before ++ inner.fill q ++ after
  | leftOf inner right => (inner.fill q).orElse right
  | rightOf left inner => left.orElse (inner.fill q)
  | rounds inner => zeroOrMore (inner.fill q)

theorem Interchangeable.fill (same : Interchangeable q r) (s : Surroundings) :
    Interchangeable (s.fill q) (s.fill r) := by
  induction s with
  | hole => exact same
  | sequence before inner after ih => exact ((refl before).append ih).append (refl after)
  | leftOf inner right ih => exact ih.orElse (refl right)
  | rightOf left inner ih => exact (refl left).orElse ih
  | rounds inner ih => exact ih.zeroOrMore

variable {ignores : Option Predicate} {bound : List SlotKey} {m m' : Matcher}

theorem Interchangeable.compile (same : Interchangeable q r) :
    (∃ m, q.compile ignores bound = .ok m) ↔ ∃ m, r.compile ignores bound = .ok m := by
  rw [compile_isOk_iff, compile_isOk_iff, same.demanded]

theorem Interchangeable.find? (same : Interchangeable q r)
    (compiled : q.compile ignores bound = .ok m) (compiled' : r.compile ignores bound = .ok m')
    (body : Body) (c : Context) : (m.find? body c).isSome = (m'.find? body c).isSome := by
  rw [find?_eq_search compiled body c c, find?_eq_search compiled' body c c]
  refine Bool.eq_iff_iff.mpr (search_isSome_iff.trans (Iff.trans ?_ search_isSome_iff.symm))
  have derives (start k : Nat) (d : Context) :
      Derives (body.tokensBesides ignores c) q start c k d ↔
        Derives (body.tokensBesides ignores c) r start c k d :=
    iff_of_eq (congrFun₂ (same.carries _) (start, c) (k, d))
  simp only [derives]

/-- Rewriting a query by one of the laws, wherever it stands, changes neither whether the whole
compiles nor whether it matches. -/
theorem find?_fill_of_rewrites (rewrites : Rewrites q r) (s : Surroundings)
    (ignores : Option Predicate) (bound : List SlotKey) :
    ((∃ m, (s.fill q).compile ignores bound = .ok m) ↔
        ∃ m', (s.fill r).compile ignores bound = .ok m') ∧
      ∀ m m', (s.fill q).compile ignores bound = .ok m →
        (s.fill r).compile ignores bound = .ok m' →
          ∀ body c, (m.find? body c).isSome = (m'.find? body c).isSome := by
  have same : Interchangeable (s.fill q) (s.fill r) :=
    Interchangeable.fill ⟨rewrites.demanded_eq, rewrites.provided_eq, fun _ => rewrites.carries_eq⟩ s
  exact ⟨same.compile, fun m m' compiled compiled' => same.find? compiled compiled'⟩

/-- Any accesses between two of one variable. -/
def otherAccesses : Query := rejecting (.sameVariable ⟨0, "var"⟩)

/-- An access of a variable before the place, and another one after it. -/
def betweenAccesses : Surroundings :=
  .sequence (matching (.captureVariable ⟨0, "var"⟩)) .hole (matching (.sameVariable ⟨0, "var"⟩))

/-- With its repetition unrolled once, the search for the second access still finds it. -/
theorem find?_fill_of_rewrites_secondAccess :
    betweenAccesses.fill (zeroOrMore otherAccesses) = secondAccess ∧
      ∃ m, (betweenAccesses.fill (done.orElse (otherAccesses ++ zeroOrMore otherAccesses))).compile
          (some .marker) [] = .ok m ∧ (m.find? storeAndLoads .empty).isSome = true := by
  obtain ⟨compiles, matching⟩ :=
    find?_fill_of_rewrites (.unroll otherAccesses) betweenAccesses (some .marker) []
  obtain ⟨m, compiled⟩ := compiles.mp ⟨_, secondAccess_compiles⟩
  have found :
      ((secondAccess.matcher (some .marker)).find? storeAndLoads .empty).isSome = true := by cbv
  have same := matching _ m secondAccess_compiles compiled storeAndLoads .empty
  exact ⟨rfl, m, compiled, same.symm.trans found⟩

end MutantSieve.Query
