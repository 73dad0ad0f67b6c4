import MutantSieve.Proofs.Pattern.Path
import MutantSieve.Proofs.Pattern.SlotDemand
import Mathlib.Data.Set.Insert

namespace MutantSieve

/-- The slots that are bound. -/
def Context.boundSlots (c : Context) : Set SlotKey := {key | c.isBound key = true}

theorem Context.boundSlots_store {c : Context} {key : SlotKey} {value : Value}
    (typed : value.kind = key.kind) :
    (c.store key value typed).boundSlots = insert key c.boundSlots := by
  ext key'
  by_cases here : key' = key <;> simp [boundSlots, isBound, get?_store, here]

theorem Context.boundSlots_storeIndex (c : Context) (slot : Slot .localVariable)
    (number : UInt64) : (c.storeIndex slot number).boundSlots = insert slot.key c.boundSlots :=
  boundSlots_store rfl

theorem Context.boundSlots_storeToken (c : Context) (slot : Slot .instruction) (id : TokenId) :
    (c.storeToken slot id).boundSlots = insert slot.key c.boundSlots :=
  boundSlots_store rfl

namespace Predicate

/-- With the slots `s` bound, a predicate may answer so and leave the slots `t` bound. -/
inductive MayTest : Predicate → (s : Set SlotKey) → (answer : Bool) → (t : Set SlotKey) → Prop
  | plain {test s answer} : MayTest (plain test) s answer s
  | sameVariable {slot s answer} : MayTest (sameVariable slot) s answer s
  | sameToken {slot s answer} : MayTest (sameToken slot) s answer s
  | captureVariable {slot s} : MayTest (captureVariable slot) s true (insert slot.key s)
  | noVariable {slot s} : MayTest (captureVariable slot) s false s
  | captureToken {slot s} : MayTest (captureToken slot) s true (insert slot.key s)
  | noToken {slot s} : MayTest (captureToken slot) s false s
  | andLeft {p q s t} :
      MayTest p s false t → MayTest (and p q) s false (if p.captures then s else t)
  | andRight {p q s t u answer} : MayTest p s true t → MayTest q t answer u →
      MayTest (and p q) s answer (if answer || !p.captures then u else s)
  | orLeft {p q s t} : MayTest p s true t → MayTest (or p q) s true t
  | orRight {p q s t u answer} : MayTest p s false t → MayTest q t answer u →
      MayTest (or p q) s answer u
  | negate {p s t answer} : MayTest p s answer t →
      MayTest (negate p) s (!answer) (if p.captures then s else t)

/-- With the slots `s` bound, a predicate may come to a leaf that reads a slot when the slots `t`
are bound. -/
inductive MayRead : Predicate → (s : Set SlotKey) → SlotKey → (t : Set SlotKey) → Prop
  | sameVariable {slot s} : MayRead (sameVariable slot) s slot.key s
  | sameToken {slot s} : MayRead (sameToken slot) s slot.key s
  | andLeft {p q s key t} : MayRead p s key t → MayRead (and p q) s key t
  | andRight {p q s t key u} : MayTest p s true t → MayRead q t key u → MayRead (and p q) s key u
  | orLeft {p q s key t} : MayRead p s key t → MayRead (or p q) s key t
  | orRight {p q s t key u} : MayTest p s false t → MayRead q t key u → MayRead (or p q) s key u
  | negate {p s key t} : MayRead p s key t → MayRead (negate p) s key t

variable {p q : Predicate} {token : Token} {c d : Context} {s t : Set SlotKey} {answer : Bool}
  {key : SlotKey}

/-- What a test does is what it may do. -/
theorem mayTest_test (p : Predicate) (token : Token) (c : Context) :
    p.MayTest c.boundSlots (p.test token c).1 (p.test token c).2.boundSlots := by
  induction p generalizing c with
  | plain => exact .plain
  | sameVariable => exact .sameVariable
  | sameToken => exact .sameToken
  | captureVariable slot =>
    unfold test
    split
    · simp only [Context.boundSlots_storeIndex]
      exact .captureVariable
    · exact .noVariable
  | captureToken slot =>
    simp only [test, Context.boundSlots_storeToken]
    exact .captureToken
  | and p q ihp ihq =>
    simp only [test]
    by_cases left : (p.test token c).1 = true
    · rw [if_pos left, apply_ite Context.boundSlots]
      exact .andRight (left ▸ ihp c) (ihq _)
    · rw [if_neg left, apply_ite Context.boundSlots]
      exact .andLeft (eq_false_of_ne_true left ▸ ihp c)
  | or p q ihp ihq =>
    simp only [test]
    by_cases left : (p.test token c).1 = true
    · rw [if_pos left, left]
      exact .orLeft (left ▸ ihp c)
    · rw [if_neg left]
      exact .orRight (eq_false_of_ne_true left ▸ ihp c) (ihq _)
  | negate p ih =>
    simp only [test, apply_ite Context.boundSlots]
    exact .negate (ih c)

theorem Reads.mayRead (reads : Reads token p c key d) :
    p.MayRead c.boundSlots key d.boundSlots := by
  induction reads with
  | sameVariable => exact .sameVariable
  | sameToken => exact .sameToken
  | andLeft _ ih => exact .andLeft ih
  | @andRight p _ c _ _ accepts _ ih => exact .andRight (accepts ▸ mayTest_test p token c) ih
  | orLeft _ ih => exact .orLeft ih
  | @orRight p _ c _ _ rejects _ ih => exact .orRight (rejects ▸ mayTest_test p token c) ih
  | negate _ ih => exact .negate ih

theorem MayTest.subset (tests : p.MayTest s answer t) : s ⊆ t := by
  induction tests with
  | plain | sameVariable | sameToken | noVariable | noToken => exact Set.Subset.rfl
  | captureVariable | captureToken => exact Set.subset_insert _ _
  | andLeft _ ih | negate _ ih =>
    split
    · exact Set.Subset.rfl
    · exact ih
  | andRight _ _ ihLeft ihRight =>
    split
    · exact ihLeft.trans ihRight
    · exact Set.Subset.rfl
  | orLeft _ ih => exact ih
  | orRight _ _ ihLeft ihRight => exact ihLeft.trans ihRight

/-- A predicate that accepts binds the slots that it declares to write. -/
theorem MayTest.mem_of_writes (tests : p.MayTest s true t) (written : key ∈ p.writes) :
    key ∈ t := by
  generalize accepts : true = answer at tests
  induction tests with
  | plain | sameVariable | sameToken | negate => cases written
  | captureVariable | captureToken =>
    obtain rfl := List.mem_singleton.mp written
    exact Set.mem_insert _ _
  | noVariable | noToken | andLeft => cases accepts
  | andRight _ right ihLeft ihRight =>
    subst accepts
    rw [Bool.true_or, if_pos rfl]
    rcases mem_withSlots.mp written with inLeft | inRight
    · exact right.subset (ihLeft inLeft rfl)
    · exact ihRight inRight rfl
  | orLeft _ ih => exact ih (mem_commonSlots.mp written).1 rfl
  | orRight _ _ _ ih => exact ih (mem_commonSlots.mp written).2 accepts

/-- A predicate may give either answer without binding a slot, unless it accepts and declares to
write the slot. -/
theorem exists_mayTest (p : Predicate) (s : Set SlotKey) (answer : Bool) (key : SlotKey) :
    ∃ t, p.MayTest s answer t ∧ (key ∈ t → key ∈ s ∨ answer = true ∧ key ∈ p.writes) := by
  induction p generalizing s answer with
  | plain => exact ⟨s, .plain, .inl⟩
  | sameVariable => exact ⟨s, .sameVariable, .inl⟩
  | sameToken => exact ⟨s, .sameToken, .inl⟩
  | captureVariable slot =>
    cases answer with
    | false => exact ⟨s, .noVariable, .inl⟩
    | true =>
      refine ⟨_, .captureVariable, fun member => ?_⟩
      exact member.symm.imp_right fun same => ⟨rfl, List.mem_singleton.mpr same⟩
  | captureToken slot =>
    cases answer with
    | false => exact ⟨s, .noToken, .inl⟩
    | true =>
      refine ⟨_, .captureToken, fun member => ?_⟩
      exact member.symm.imp_right fun same => ⟨rfl, List.mem_singleton.mpr same⟩
  | and p q ihp ihq =>
    cases answer with
    | false =>
      obtain ⟨t, rejects, only⟩ := ihp s false
      refine ⟨_, .andLeft rejects, fun member => .inl ?_⟩
      split at member
      · exact member
      · exact (only member).resolve_right (by simp)
    | true =>
      obtain ⟨t, left, onlyLeft⟩ := ihp s true
      obtain ⟨u, right, onlyRight⟩ := ihq t true
      refine ⟨_, .andRight left right, fun member => ?_⟩
      rw [Bool.true_or, if_pos rfl] at member
      rcases onlyRight member with before | ⟨-, inRight⟩
      · exact (onlyLeft before).imp_right fun ⟨_, inLeft⟩ => ⟨rfl, mem_withSlots.mpr (.inl inLeft)⟩
      · exact .inr ⟨rfl, mem_withSlots.mpr (.inr inRight)⟩
  | or p q ihp ihq =>
    obtain ⟨t, rejects, onlyRejected⟩ := ihp s false
    obtain ⟨u, right, onlyRight⟩ := ihq t answer
    have before (member : key ∈ t) : key ∈ s := (onlyRejected member).resolve_right (by simp)
    -- If the first side writes the slot, the second side has to accept.
    by_cases through : answer = true ∧ key ∉ p.writes
    · obtain ⟨rfl, unwritten⟩ := through
      obtain ⟨t, left, onlyLeft⟩ := ihp s true
      exact ⟨t, .orLeft left, fun member => .inl
        ((onlyLeft member).resolve_right fun ⟨_, written⟩ => unwritten written)⟩
    · refine ⟨u, .orRight rejects right, fun member => ?_⟩
      refine (onlyRight member).imp before fun ⟨accepts, inRight⟩ => ⟨accepts, ?_⟩
      exact mem_commonSlots.mpr ⟨not_not.mp fun unwritten => through ⟨accepts, unwritten⟩, inRight⟩
  | negate p ih =>
    obtain ⟨t, tests, only⟩ := ih s (!answer)
    have negated := tests.negate
    rw [Bool.not_not] at negated
    refine ⟨_, negated, fun member => .inl ?_⟩
    split at member
    · exact member
    · next silent =>
      have nothing : p.writes = [] := by simpa [captures] using silent
      exact (only member).resolve_right (by simp [nothing])

theorem exists_mayTest_without (p : Predicate) (answer : Bool) (free : key ∉ s)
    (spared : answer = true → key ∉ p.writes) : ∃ t, p.MayTest s answer t ∧ key ∉ t := by
  obtain ⟨t, tests, only⟩ := exists_mayTest p s answer key
  exact ⟨t, tests, fun member => (only member).elim free fun ⟨accepts, written⟩ =>
    spared accepts written⟩

theorem exists_mayTest_negate (p : Predicate) (free : key ∉ s) :
    ∃ t, p.negate.MayTest s true t ∧ key ∉ t :=
  exists_mayTest_without p.negate true free fun _ => List.not_mem_nil

/-- A slot that may be read too early is among the declared reads. -/
theorem MayRead.early (reads : p.MayRead s key t) (unbound : key ∉ t) :
    key ∈ p.reads ∧ key ∉ s := by
  induction reads with
  | sameVariable | sameToken => exact ⟨List.mem_singleton_self _, unbound⟩
  | andLeft _ ih | orLeft _ ih =>
    exact (ih unbound).imp_left fun read => mem_withSlots.mpr (.inl read)
  | @andRight p _ _ _ key _ left _ ih =>
    obtain ⟨read, free⟩ := ih unbound
    have unwritten : key ∉ p.writes := fun written => free (left.mem_of_writes written)
    exact ⟨mem_withSlots.mpr (.inr (by simp [read, unwritten])), fun old => free (left.subset old)⟩
  | orRight left _ ih =>
    obtain ⟨read, free⟩ := ih unbound
    exact ⟨mem_withSlots.mpr (.inr read), fun old => free (left.subset old)⟩
  | negate _ ih => exact ih unbound

/-- A declared read may come too early. -/
theorem exists_mayRead (read : key ∈ p.reads) (free : key ∉ s) :
    ∃ t, p.MayRead s key t ∧ key ∉ t := by
  induction p generalizing s with
  | plain | captureVariable | captureToken => cases read
  | sameVariable slot =>
    obtain rfl := List.mem_singleton.mp read
    exact ⟨s, .sameVariable, free⟩
  | sameToken slot =>
    obtain rfl := List.mem_singleton.mp read
    exact ⟨s, .sameToken, free⟩
  | and p q ihp ihq =>
    rcases mem_withSlots.mp read with inLeft | inRight
    · obtain ⟨t, reads, unbound⟩ := ihp inLeft free
      exact ⟨t, .andLeft reads, unbound⟩
    · obtain ⟨inRight, unwritten⟩ : key ∈ q.reads ∧ key ∉ p.writes := by simpa using inRight
      obtain ⟨t, accepts, between⟩ := exists_mayTest_without p true free fun _ => unwritten
      obtain ⟨u, reads, unbound⟩ := ihq inRight between
      exact ⟨u, .andRight accepts reads, unbound⟩
  | or p q ihp ihq =>
    rcases mem_withSlots.mp read with inLeft | inRight
    · obtain ⟨t, reads, unbound⟩ := ihp inLeft free
      exact ⟨t, .orLeft reads, unbound⟩
    · obtain ⟨t, rejects, between⟩ := exists_mayTest_without p false free nofun
      obtain ⟨u, reads, unbound⟩ := ihq inRight between
      exact ⟨u, .orRight rejects reads, unbound⟩
  | negate p ih =>
    obtain ⟨t, reads, unbound⟩ := ih read free
    exact ⟨t, .negate reads, unbound⟩

end Predicate

namespace Query

/-- With the slots `s` bound, a run may pass all clauses and leave the slots `t` bound. A repetition
takes any finite number of rounds. -/
inductive MayPass : Query → (s t : Set SlotKey) → Prop
  | done {s} : MayPass done s s
  | accept {p rest s t u} :
      p.MayTest s true t → MayPass rest t u → MayPass (accept p rest) s u
  | reject {p rest s t u} :
      p.negate.MayTest s true t → MayPass rest t u → MayPass (reject p rest) s u
  | left {left right rest s t u} :
      MayPass left s t → MayPass rest t u → MayPass (either left right rest) s u
  | right {left right rest s t u} :
      MayPass right s t → MayPass rest t u → MayPass (either left right rest) s u
  | leave {body rest s t} : MayPass rest s t → MayPass (repeated body rest) s t
  | round {body rest s t u} :
      MayPass body s t → MayPass (repeated body rest) t u → MayPass (repeated body rest) s u

/-- With the slots `s` bound, a run may come to a leaf that reads a slot when the slots `t` are
bound. -/
inductive MayRead : Query → (s : Set SlotKey) → SlotKey → (t : Set SlotKey) → Prop
  | accept {p rest s key t} : p.MayRead s key t → MayRead (accept p rest) s key t
  | afterAccept {p rest s t key u} :
      p.MayTest s true t → MayRead rest t key u → MayRead (accept p rest) s key u
  | reject {p rest s key t} : p.negate.MayRead s key t → MayRead (reject p rest) s key t
  | afterReject {p rest s t key u} :
      p.negate.MayTest s true t → MayRead rest t key u → MayRead (reject p rest) s key u
  | left {left right rest s key t} :
      MayRead left s key t → MayRead (either left right rest) s key t
  | right {left right rest s key t} :
      MayRead right s key t → MayRead (either left right rest) s key t
  | afterLeft {left right rest s t key u} :
      MayPass left s t → MayRead rest t key u → MayRead (either left right rest) s key u
  | afterRight {left right rest s t key u} :
      MayPass right s t → MayRead rest t key u → MayRead (either left right rest) s key u
  | leave {body rest s key t} : MayRead rest s key t → MayRead (repeated body rest) s key t
  | body {body rest s key t} : MayRead body s key t → MayRead (repeated body rest) s key t
  | round {body rest s t key u} :
      MayPass body s t → MayRead (repeated body rest) t key u →
        MayRead (repeated body rest) s key u

/-- Some run reads a slot that is neither bound beforehand nor by the clauses before. -/
def ReadsEarly (q : Query) (bound : List SlotKey) (key : SlotKey) : Prop :=
  ∃ t, q.MayRead {slot | slot ∈ bound} key t ∧ key ∉ t

variable {tokens : List Token} {q : Query} {i k : Nat} {c d : Context} {s t : Set SlotKey}
  {bound : List SlotKey} {key : SlotKey}

/-- What a derivation does is what a run may do. -/
theorem Derives.mayPass (derivation : Derives tokens q i c k d) :
    q.MayPass c.boundSlots d.boundSlots := by
  induction derivation with
  | done => exact .done
  | @accept p _ token _ _ c _ _ _ accepts _ ih =>
    have tested := p.mayTest_test token c
    rw [accepts] at tested
    exact .accept tested ih
  | @reject p _ token _ _ c _ _ _ rejects _ ih =>
    have tested := p.negate.mayTest_test token c
    rw [rejects] at tested
    exact .reject tested ih
  | left _ _ ihSide ih => exact .left ihSide ih
  | right _ _ ihSide ih => exact .right ihSide ih
  | leave _ ih => exact .leave ih
  | round _ _ ihBody ih => exact .round ihBody ih

theorem MayPass.subset (passes : q.MayPass s t) : s ⊆ t := by
  induction passes with
  | done => exact Set.Subset.rfl
  | accept tests _ ih | reject tests _ ih => exact tests.subset.trans ih
  | left _ _ ihSide ih | right _ _ ihSide ih | round _ _ ihSide ih => exact ihSide.trans ih
  | leave _ ih => exact ih

/-- A run that passes all clauses binds the slots that the query provides. -/
theorem MayPass.mem_of_provided (passes : q.MayPass s t) (provided : key ∈ q.provided) :
    key ∈ t := by
  induction passes with
  | done => simp [Query.provided] at provided
  | accept tests rest ih =>
    rcases Finset.mem_union.mp provided with written | later
    · exact rest.subset (tests.mem_of_writes (List.mem_toFinset.mp written))
    · exact ih later
  | reject _ _ ih => exact ih provided
  | left side rest ihSide ih =>
    rcases Finset.mem_union.mp provided with sides | later
    · exact rest.subset (ihSide (Finset.mem_inter.mp sides).1)
    · exact ih later
  | right side rest ihSide ih =>
    rcases Finset.mem_union.mp provided with sides | later
    · exact rest.subset (ihSide (Finset.mem_inter.mp sides).2)
    · exact ih later
  | leave _ ih => exact ih provided
  | round _ _ _ ih => exact ih provided

/-- Some run passes all clauses without binding a slot that the query does not provide. -/
theorem exists_mayPass_without (q : Query) (free : key ∉ s) (spared : key ∉ q.provided) :
    ∃ t, q.MayPass s t ∧ key ∉ t := by
  induction q generalizing s with
  | done => exact ⟨s, .done, free⟩
  | accept p rest ih =>
    rw [provided, Finset.mem_union, not_or, List.mem_toFinset] at spared
    obtain ⟨t, tests, between⟩ := p.exists_mayTest_without true free fun _ => spared.1
    obtain ⟨u, passes, unbound⟩ := ih between spared.2
    exact ⟨u, .accept tests passes, unbound⟩
  | reject p rest ih =>
    obtain ⟨t, tests, between⟩ := p.exists_mayTest_negate free
    obtain ⟨u, passes, unbound⟩ := ih between spared
    exact ⟨u, .reject tests passes, unbound⟩
  | either left right rest ihLeft ihRight ih =>
    rw [provided, Finset.mem_union, not_or, Finset.mem_inter] at spared
    obtain ⟨notBoth, later⟩ := spared
    by_cases inLeft : key ∈ left.provided
    · obtain ⟨t, side, between⟩ := ihRight free fun inRight => notBoth ⟨inLeft, inRight⟩
      obtain ⟨u, passes, unbound⟩ := ih between later
      exact ⟨u, .right side passes, unbound⟩
    · obtain ⟨t, side, between⟩ := ihLeft free inLeft
      obtain ⟨u, passes, unbound⟩ := ih between later
      exact ⟨u, .left side passes, unbound⟩
  | repeated body rest _ ih =>
    obtain ⟨t, passes, unbound⟩ := ih free spared
    exact ⟨t, .leave passes, unbound⟩

/-- A slot that a run reads too early is one that the query demands. -/
theorem MayRead.early (reads : q.MayRead s key t) (unbound : key ∉ t) :
    key ∈ q.demanded ∧ key ∉ s := by
  induction reads with
  | accept reads =>
    obtain ⟨read, free⟩ := reads.early unbound
    exact ⟨by simp [demanded, read], free⟩
  | @afterAccept p _ _ _ key _ tests _ ih =>
    obtain ⟨later, free⟩ := ih unbound
    have unwritten : key ∉ p.writes := fun written => free (tests.mem_of_writes written)
    exact ⟨by simp [demanded, later, unwritten], fun old => free (tests.subset old)⟩
  | reject reads =>
    obtain ⟨read, free⟩ := reads.early unbound
    exact ⟨Finset.mem_union_left _ (List.mem_toFinset.mpr read), free⟩
  | afterReject tests _ ih =>
    obtain ⟨later, free⟩ := ih unbound
    exact ⟨Finset.mem_union_right _ later, fun old => free (tests.subset old)⟩
  | left _ ih | right _ ih | body _ ih =>
    obtain ⟨inside, free⟩ := ih unbound
    exact ⟨by simp [demanded, inside], free⟩
  | @afterLeft left right _ _ _ key _ side _ ih =>
    obtain ⟨later, free⟩ := ih unbound
    have unbound : key ∉ left.provided := fun provided => free (side.mem_of_provided provided)
    exact ⟨by simp [demanded, later, unbound], fun old => free (side.subset old)⟩
  | @afterRight left right _ _ _ key _ side _ ih =>
    obtain ⟨later, free⟩ := ih unbound
    have unbound : key ∉ right.provided := fun provided => free (side.mem_of_provided provided)
    exact ⟨by simp [demanded, later, unbound], fun old => free (side.subset old)⟩
  | leave _ ih =>
    obtain ⟨later, free⟩ := ih unbound
    exact ⟨Finset.mem_union_right _ later, free⟩
  | round passes _ ih =>
    obtain ⟨demands, free⟩ := ih unbound
    exact ⟨demands, fun old => free (passes.subset old)⟩

/-- A slot that the query demands is read too early by some run. -/
theorem exists_mayRead (demands : key ∈ q.demanded) (free : key ∉ s) :
    ∃ t, q.MayRead s key t ∧ key ∉ t := by
  induction q generalizing s with
  | done => simp [demanded] at demands
  | accept p rest ih =>
    rcases Finset.mem_union.mp demands with read | later
    · obtain ⟨t, reads, unbound⟩ := Predicate.exists_mayRead (List.mem_toFinset.mp read) free
      exact ⟨t, .accept reads, unbound⟩
    · obtain ⟨later, unwritten⟩ := Finset.mem_sdiff.mp later
      rw [List.mem_toFinset] at unwritten
      obtain ⟨t, tests, between⟩ := p.exists_mayTest_without true free fun _ => unwritten
      obtain ⟨u, reads, unbound⟩ := ih later between
      exact ⟨u, .afterAccept tests reads, unbound⟩
  | reject p rest ih =>
    rcases Finset.mem_union.mp demands with read | later
    · obtain ⟨t, reads, unbound⟩ := Predicate.exists_mayRead (List.mem_toFinset.mp read) free
      exact ⟨t, .reject (.negate reads), unbound⟩
    · obtain ⟨t, tests, between⟩ := p.exists_mayTest_negate free
      obtain ⟨u, reads, unbound⟩ := ih later between
      exact ⟨u, .afterReject tests reads, unbound⟩
  | either left right rest ihLeft ihRight ih =>
    rw [demanded, Finset.mem_union, Finset.mem_union] at demands
    rcases demands with (inLeft | inRight) | later
    · obtain ⟨t, reads, unbound⟩ := ihLeft inLeft free
      exact ⟨t, .left reads, unbound⟩
    · obtain ⟨t, reads, unbound⟩ := ihRight inRight free
      exact ⟨t, .right reads, unbound⟩
    · obtain ⟨later, notBoth⟩ := Finset.mem_sdiff.mp later
      rw [Finset.mem_inter] at notBoth
      by_cases inLeft : key ∈ left.provided
      · obtain ⟨t, side, between⟩ := right.exists_mayPass_without free fun inRight =>
          notBoth ⟨inLeft, inRight⟩
        obtain ⟨u, reads, unbound⟩ := ih later between
        exact ⟨u, .afterRight side reads, unbound⟩
      · obtain ⟨t, side, between⟩ := left.exists_mayPass_without free inLeft
        obtain ⟨u, reads, unbound⟩ := ih later between
        exact ⟨u, .afterLeft side reads, unbound⟩
  | repeated body rest ihBody ih =>
    rcases Finset.mem_union.mp demands with inBody | later
    · obtain ⟨t, reads, unbound⟩ := ihBody inBody free
      exact ⟨t, .body reads, unbound⟩
    · obtain ⟨t, reads, unbound⟩ := ih later free
      exact ⟨t, .leave reads, unbound⟩

theorem readsEarly_iff : q.ReadsEarly bound key ↔ key ∈ q.demanded ∧ key ∉ bound := by
  constructor
  · rintro ⟨t, reads, unbound⟩
    exact reads.early unbound
  · rintro ⟨demands, free⟩
    exact exists_mayRead demands free

theorem compile_none_eq_error_iff :
    q.compile none bound = .error (.unboundSlot key) ↔ q.boundAfter bound = .error key := by
  rw [compile, Option.bind_none]
  cases q.boundAfter bound <;> simp

/-- Without a predicate for ignored instructions, a query is refused for an unbound slot if and only
if some abstract run reads a slot too early, and the slot that it is refused for is one of these. -/
theorem compile_unbound_iff (q : Query) (bound : List SlotKey) :
    ((∃ key, q.compile none bound = .error (.unboundSlot key)) ↔ ∃ key, q.ReadsEarly bound key) ∧
      ∀ key, q.compile none bound = .error (.unboundSlot key) → q.ReadsEarly bound key := by
  have named (key : SlotKey) (refused : q.compile none bound = .error (.unboundSlot key)) :
      q.ReadsEarly bound key :=
    readsEarly_iff.mpr (boundAfter_error (compile_none_eq_error_iff.mp refused))
  refine ⟨⟨fun ⟨key, refused⟩ => ⟨key, named key refused⟩, ?_⟩, named⟩
  rintro ⟨key, early⟩
  obtain ⟨demands, free⟩ := readsEarly_iff.mp early
  cases checked : q.boundAfter bound with
  | error key' => exact ⟨key', compile_none_eq_error_iff.mpr checked⟩
  | ok after =>
    have within := boundAfter_isOk_iff.mp ⟨after, checked⟩ demands
    exact absurd (List.mem_toFinset.mp within) free

/-- An instruction of which the variable is captured if it names one, and an access of that
variable. -/
def afterAny : Query :=
  matching ((Predicate.captureVariable ⟨0, "var"⟩).or .any) ++ matching (.sameVariable ⟨0, "var"⟩)

theorem compile_unbound_iff_afterAny :
    afterAny.compile none [] = .error (.unboundSlot ⟨0, .localVariable, "var"⟩) ∧
      afterAny.ReadsEarly [] ⟨0, .localVariable, "var"⟩ := by
  have refused : afterAny.compile none [] = .error (.unboundSlot ⟨0, .localVariable, "var"⟩) := rfl
  exact ⟨refused, (compile_unbound_iff afterAny []).2 _ refused⟩

end Query

end MutantSieve
