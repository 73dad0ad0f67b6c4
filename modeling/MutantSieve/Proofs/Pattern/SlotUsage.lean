import MutantSieve.Pattern.SlotCheck
import MutantSieve.Pattern.Matcher

namespace MutantSieve

@[simp] theorem mem_withSlots {key : SlotKey} {first second : List SlotKey} :
    key ∈ withSlots first second ↔ key ∈ first ∨ key ∈ second := by
  by_cases here : key ∈ first <;> simp [withSlots, here]

@[simp] theorem mem_commonSlots {key : SlotKey} {first second : List SlotKey} :
    key ∈ commonSlots first second ↔ key ∈ first ∧ key ∈ second := by
  simp [commonSlots]

theorem forall_mem_withSlots {first second : List SlotKey} {P : SlotKey → Prop} :
    (∀ key ∈ withSlots first second, P key) ↔ (∀ key ∈ first, P key) ∧ ∀ key ∈ second, P key := by
  simp only [mem_withSlots, or_imp, forall_and]

namespace Context

variable {a b c a' b' a'' b'' : Context} {slots slots' : List SlotKey}

/-- All of the slots are bound. -/
def Binds (c : Context) (slots : List SlotKey) : Prop := ∀ key ∈ slots, c.isBound key = true

theorem binds_withSlots : c.Binds (withSlots slots slots') ↔ c.Binds slots ∧ c.Binds slots' :=
  forall_mem_withSlots

theorem exists_value {key : SlotKey} (bound : c.isBound key = true) :
    ∃ value, c.get? key = some value ∧ value.kind = key.kind := by
  obtain ⟨value, found⟩ := Option.isSome_iff_exists.mp bound
  exact ⟨value, found, kind_of_get? found⟩

/-- Two contexts have the same value, or none, at each of the slots. -/
def AgreeOn (slots : List SlotKey) (a b : Context) : Prop := ∀ key ∈ slots, a.get? key = b.get? key

/-- After what happened to two contexts, each slot has the same value in both or was left alone in
both. -/
def SameChange (a b a' b' : Context) : Prop :=
  ∀ key, a'.get? key = b'.get? key ∨ a'.get? key = a.get? key ∧ b'.get? key = b.get? key

theorem SameChange.refl (a b : Context) : SameChange a b a b := fun _ => .inr ⟨rfl, rfl⟩

theorem SameChange.trans (first : SameChange a b a' b') (second : SameChange a' b' a'' b'') :
    SameChange a b a'' b'' := by
  intro key
  rcases second key with same | ⟨left, right⟩
  · exact .inl same
  · rw [left, right]
    exact first key

theorem SameChange.agreeOn (change : SameChange a b a' b') (agree : AgreeOn slots a b) :
    AgreeOn slots a' b' := by
  intro key member
  rcases change key with same | ⟨left, right⟩
  · exact same
  · rw [left, right]
    exact agree key member

theorem sameChange_store {key : SlotKey} {value : Value} (typed : value.kind = key.kind) :
    SameChange a b (a.store key value typed) (b.store key value typed) := by
  intro key'
  rw [get?_store, get?_store]
  split
  · exact .inl rfl
  · exact .inr ⟨rfl, rfl⟩

theorem agreeOn_store {key : SlotKey} {value : Value} (typed : value.kind = key.kind) :
    AgreeOn [key] (a.store key value typed) (b.store key value typed) := by
  intro key' member
  obtain rfl := List.mem_singleton.mp member
  rw [get?_store, get?_store, if_pos rfl, if_pos rfl]

theorem agreeOn_withSlots :
    AgreeOn (withSlots slots slots') a b ↔ AgreeOn slots a b ∧ AgreeOn slots' a b :=
  forall_mem_withSlots

theorem AgreeOn.mono (agree : AgreeOn slots' a b) (within : slots ⊆ slots') :
    AgreeOn slots a b :=
  fun key member => agree key (within member)

end Context

namespace Token

/-- What a token supplies for a slot of a kind: the variable that its instruction names, or the
token itself. -/
def supply? (token : Token) : SlotKind → Option Value
  | .localVariable => token.instruction.localIndex?.map .index
  | .instruction => some (.token token.id)

/-- A slot is bound to what a token supplies for it. -/
def Supplied (token : Token) (c : Context) (key : SlotKey) : Prop :=
  ∃ value, token.supply? key.kind = some value ∧ c.get? key = some value

/-- From one context to another, a slot was left alone or given what a token supplies for it. -/
def Fills (token : Token) (key : SlotKey) (c d : Context) : Prop :=
  d.get? key = c.get? key ∨ token.Supplied d key

variable {token : Token} {key key' : SlotKey} {value : Value} {c d e : Context}

theorem Supplied.isBound (supplied : token.Supplied c key) : c.isBound key = true := by
  obtain ⟨value, -, bound⟩ := supplied
  rw [Context.isBound, bound, Option.isSome_some]

theorem Supplied.store (typed : value.kind = key.kind)
    (supplies : token.supply? key.kind = some value) :
    token.Supplied (c.store key value typed) key :=
  ⟨value, supplies, by rw [Context.get?_store, if_pos rfl]⟩

theorem Supplied.fills (supplied : token.Supplied c key) (fills : token.Fills key c d) :
    token.Supplied d key := by
  rcases fills with same | supplied'
  · obtain ⟨value, supplies, bound⟩ := supplied
    exact ⟨value, supplies, same.trans bound⟩
  · exact supplied'

theorem Fills.refl (token : Token) (key : SlotKey) (c : Context) : token.Fills key c c := .inl rfl

theorem Fills.trans (first : token.Fills key c d) (second : token.Fills key d e) :
    token.Fills key c e := by
  rcases first with same | supplied
  · exact second.imp_left fun same' => same'.trans same
  · exact .inr (supplied.fills second)

theorem Fills.store (typed : value.kind = key'.kind)
    (supplies : token.supply? key'.kind = some value) :
    token.Fills key c (c.store key' value typed) := by
  by_cases here : key = key'
  · subst here
    exact .inr (.store typed supplies)
  · exact .inl (Context.get?_store_of_ne typed here)

end Token

namespace Predicate

/-- Testing a token in the context `c`, a predicate comes to a leaf that reads a slot in the context
`d`. -/
inductive Reads (token : Token) : Predicate → (c : Context) → SlotKey → (d : Context) → Prop
  | sameVariable {slot c} : Reads token (sameVariable slot) c slot.key c
  | sameToken {slot c} : Reads token (sameToken slot) c slot.key c
  | andLeft {p q c key d} : Reads token p c key d → Reads token (and p q) c key d
  | andRight {p q c key d} : (p.test token c).1 = true →
      Reads token q (p.test token c).2 key d → Reads token (and p q) c key d
  | orLeft {p q c key d} : Reads token p c key d → Reads token (or p q) c key d
  | orRight {p q c key d} : (p.test token c).1 = false →
      Reads token q (p.test token c).2 key d → Reads token (or p q) c key d
  | negate {p c key d} : Reads token p c key d → Reads token (negate p) c key d

variable {p q : Predicate} {token : Token} {a b c d : Context} {key : SlotKey}

/-- A test leaves a slot alone or gives it what the token supplies. -/
theorem fills_test (p : Predicate) (token : Token) (c : Context) (key : SlotKey) :
    token.Fills key c (p.test token c).2 := by
  induction p generalizing c with
  | plain | sameVariable | sameToken => exact .refl token key c
  | captureVariable slot =>
    unfold test
    split
    · next number names => exact .store rfl (congrArg (·.map Value.index) names)
    · exact .refl token key c
  | captureToken slot => exact .store rfl rfl
  | and p q ihp ihq =>
    simp only [test]
    split
    · split
      · exact (ihp c).trans (ihq _)
      · exact .refl token key c
    · split
      · exact .refl token key c
      · exact ihp c
  | or p q ihp ihq =>
    simp only [test]
    split
    · exact ihp c
    · exact (ihp c).trans (ihq _)
  | negate p ih =>
    simp only [test]
    split
    · exact .refl token key c
    · exact ih c

/-- Nothing that a test does unbinds a slot. -/
theorem isBound_test (bound : c.isBound key = true) : (p.test token c).2.isBound key = true := by
  rcases fills_test p token c key with same | supplied
  · rw [Context.isBound, same]
    exact bound
  · exact supplied.isBound

theorem binds_test {slots : List SlotKey} (binds : c.Binds slots) :
    (p.test token c).2.Binds slots :=
  fun key member => isBound_test (binds key member)

/-- A predicate that accepts a token has bound the slots it writes to what the token supplies. -/
theorem supplied_of_accepts (accepts : (p.test token c).1 = true) (written : key ∈ p.writes) :
    token.Supplied (p.test token c).2 key := by
  induction p generalizing c with
  | plain | sameVariable | sameToken | negate => cases written
  | captureVariable slot =>
    obtain rfl := List.mem_singleton.mp written
    unfold test at accepts ⊢
    split at accepts
    · next number names => exact .store rfl (congrArg (·.map Value.index) names)
    · cases accepts
  | captureToken slot =>
    obtain rfl := List.mem_singleton.mp written
    exact .store rfl rfl
  | and p q ihp ihq =>
    simp only [test] at accepts ⊢
    by_cases left : (p.test token c).1 = true
    · simp only [left, if_true] at accepts ⊢
      rw [accepts, Bool.true_or, if_pos rfl]
      rcases mem_withSlots.mp written with inLeft | inRight
      · exact (ihp left inLeft).fills (fills_test q token _ key)
      · exact ihq accepts inRight
    · simp [left] at accepts
  | or p q ihp ihq =>
    obtain ⟨inLeft, inRight⟩ := mem_commonSlots.mp written
    simp only [test] at accepts ⊢
    split at accepts
    · next left =>
      rw [if_pos left]
      exact ihp left inLeft
    · next left =>
      rw [if_neg left]
      exact ihq accepts inRight

theorem binds_writes (accepts : (p.test token c).1 = true) : (p.test token c).2.Binds p.writes :=
  fun _ written => (supplied_of_accepts accepts written).isBound

/-- If the slots that a predicate reads are bound, its leaves read bound slots only. -/
theorem Reads.isBound (reads : Reads token p c key d) (binds : c.Binds p.reads) :
    d.isBound key = true := by
  induction reads with
  | sameVariable | sameToken => exact binds _ (List.mem_singleton_self _)
  | andLeft _ ih | orLeft _ ih => exact ih (Context.binds_withSlots.mp binds).1
  | @andRight p q c key d accepts _ ih =>
    refine ih fun key member => ?_
    by_cases written : key ∈ p.writes
    · exact binds_writes accepts key written
    · refine isBound_test ((Context.binds_withSlots.mp binds).2 key ?_)
      simp [member, written]
  | orRight _ _ ih => exact ih (binds_test (Context.binds_withSlots.mp binds).2)
  | negate _ ih => exact ih binds

/-- How a test turns out depends on the slots alone that the predicate reads, and so does what it
does to a slot that it changes. If it accepts, the slots that it writes are the same afterwards. -/
theorem sameTest (token : Token) (agree : Context.AgreeOn p.reads a b) :
    (p.test token a).1 = (p.test token b).1 ∧
      Context.SameChange a b (p.test token a).2 (p.test token b).2 ∧
      ((p.test token a).1 = true →
        Context.AgreeOn p.writes (p.test token a).2 (p.test token b).2) := by
  have nothing {a b : Context} : Context.AgreeOn [] a b := fun _ member => nomatch member
  induction p generalizing a b with
  | plain test => exact ⟨rfl, .refl a b, fun _ => nothing⟩
  | captureVariable slot =>
    simp only [test]
    split
    · exact ⟨rfl, Context.sameChange_store rfl, fun _ => Context.agreeOn_store rfl⟩
    · exact ⟨rfl, .refl a b, fun accepts => nomatch accepts⟩
  | captureToken slot =>
    exact ⟨rfl, Context.sameChange_store rfl, fun _ => Context.agreeOn_store rfl⟩
  | sameVariable slot =>
    have same : a.localIndex? slot = b.localIndex? slot :=
      congrArg (·.bind Value.index?) (agree slot.key (List.mem_singleton_self _))
    exact ⟨by rw [test, test, same], .refl a b, fun _ => nothing⟩
  | sameToken slot =>
    have same : a.token? slot = b.token? slot :=
      congrArg (·.bind Value.token?) (agree slot.key (List.mem_singleton_self _))
    exact ⟨by rw [test, test, same], .refl a b, fun _ => nothing⟩
  | and p q ihp ihq =>
    obtain ⟨forLeft, forRight⟩ := Context.agreeOn_withSlots.mp agree
    obtain ⟨sameLeft, changeLeft, writtenLeft⟩ := ihp forLeft
    by_cases left : (p.test token a).1 = true
    · have agreeRight : Context.AgreeOn q.reads (p.test token a).2 (p.test token b).2 := by
        intro key member
        by_cases written : key ∈ p.writes
        · exact writtenLeft left key written
        · exact changeLeft.agreeOn forRight key (by simp [member, written])
      obtain ⟨sameRight, changeRight, writtenRight⟩ := ihq agreeRight
      simp only [test, ← sameLeft, left, if_true, ← sameRight, true_and]
      refine ⟨?_, fun accepts => ?_⟩
      · split
        · exact changeLeft.trans changeRight
        · exact .refl a b
      · rw [accepts, Bool.true_or, if_pos rfl, if_pos rfl]
        exact Context.agreeOn_withSlots.mpr
          ⟨changeRight.agreeOn (writtenLeft left), writtenRight accepts⟩
    · simp only [test, ← sameLeft, left, Bool.false_eq_true, if_false, true_and]
      refine ⟨?_, fun accepts => nomatch accepts⟩
      split
      · exact .refl a b
      · exact changeLeft
  | or p q ihp ihq =>
    obtain ⟨forLeft, forRight⟩ := Context.agreeOn_withSlots.mp agree
    obtain ⟨sameLeft, changeLeft, writtenLeft⟩ := ihp forLeft
    by_cases left : (p.test token a).1 = true
    · simp only [test, ← sameLeft, left, if_true, true_and]
      refine ⟨changeLeft, fun _ => (writtenLeft left).mono fun key member => ?_⟩
      exact (mem_commonSlots.mp member).1
    · obtain ⟨sameRight, changeRight, writtenRight⟩ := ihq (changeLeft.agreeOn forRight)
      simp only [test, ← sameLeft, left]
      refine ⟨sameRight, changeLeft.trans changeRight, fun accepts => ?_⟩
      exact (writtenRight accepts).mono fun key member => (mem_commonSlots.mp member).2
  | negate p ih =>
    obtain ⟨same, change, -⟩ := ih agree
    refine ⟨by simp only [test, same], ?_, fun _ => nothing⟩
    simp only [test]
    split
    · exact .refl a b
    · exact change

/-- A predicate that reads no slot accepts a token in all contexts or in none. -/
theorem test_of_reads_nil (noReads : p.reads = []) (a b : Context) :
    (p.test token a).1 = (p.test token b).1 :=
  (sameTest token fun _ member => by simp [noReads] at member).1

theorem rejected_eq (noReads : p.reads = []) (tokens : List Token) (b c : Context)
    (kept : Array Token) :
    (p.rejected tokens b kept).toList =
      kept.toList ++ tokens.filter fun token => !(p.test token c).1 := by
  induction tokens generalizing b kept with
  | nil => exact (List.append_nil _).symm
  | cons token tokens ih =>
    rw [rejected, ih, test_of_reads_nil noReads b c]
    by_cases accepts : (p.test token c).1 = true
    · simp [accepts]
    · simp [accepts]

end Predicate

/-- The tokens of a body that a predicate rejects in a context, or all of them. -/
def Body.tokensBesides (body : Body) (ignores : Option Predicate) (c : Context) : List Token :=
  body.tokens.filter fun token => ignores.all fun p => !(p.test token c).1

/-- The significant tokens are those that the predicate for ignored instructions rejects, whatever
context it is asked in. -/
theorem Matcher.significant_eq {m : Matcher} (noReads : ∀ p ∈ m.ignores, p.reads = []) (body : Body)
    (b c : Context) : m.significant body b = body.tokensBesides m.ignores c := by
  cases ignores : m.ignores with
  | none =>
    simp only [significant, Body.tokensBesides, ignores, Option.all_none]
    exact (List.filter_eq_self.mpr fun _ _ => rfl).symm
  | some p =>
    simp only [significant, Body.tokensBesides, ignores, Option.all_some]
    exact Predicate.rejected_eq (noReads p ignores) body.tokens b c #[]

namespace Query

variable {p : Predicate} {q left right body rest : Query} {ignores : Option Predicate} {m : Matcher}
  {bound after : List SlotKey}

theorem boundAfter_accept (checked : (accept p rest).boundAfter bound = .ok after) :
    p.reads ⊆ bound ∧ rest.boundAfter (withSlots bound p.writes) = .ok after := by
  rw [boundAfter] at checked
  split at checked
  · cases checked
  · next allBound =>
    refine ⟨fun key member => ?_, checked⟩
    simpa using List.find?_eq_none.mp allBound key member

theorem boundAfter_reject (checked : (reject p rest).boundAfter bound = .ok after) :
    p.reads ⊆ bound ∧ rest.boundAfter bound = .ok after := by
  rw [boundAfter] at checked
  split at checked
  · cases checked
  · next allBound =>
    refine ⟨fun key member => ?_, checked⟩
    simpa using List.find?_eq_none.mp allBound key member

theorem boundAfter_either (checked : (either left right rest).boundAfter bound = .ok after) :
    ∃ l r, left.boundAfter bound = .ok l ∧ right.boundAfter bound = .ok r ∧
      rest.boundAfter (withSlots bound (commonSlots l r)) = .ok after := by
  rw [boundAfter] at checked
  split at checked
  · next l r onLeft onRight => exact ⟨l, r, onLeft, onRight, checked⟩
  · cases checked
  · cases checked

theorem boundAfter_repeated (checked : (repeated body rest).boundAfter bound = .ok after) :
    (∃ l, body.boundAfter bound = .ok l) ∧ rest.boundAfter bound = .ok after := by
  rw [boundAfter] at checked
  split at checked
  · next l inBody => exact ⟨⟨l, inBody⟩, checked⟩
  · cases checked

/-- What a successful check says of a query and of the predicate for ignored instructions. -/
theorem compile_eq_ok (compiled : q.compile ignores bound = .ok m) :
    m = ⟨q.program, ignores⟩ ∧ (∃ after, q.boundAfter bound = .ok after) ∧
      ∀ p ∈ ignores, p.reads = [] := by
  rw [compile] at compiled
  split at compiled
  · cases compiled
  · next allowed =>
    split at compiled
    · cases compiled
    · next after checked =>
      refine ⟨(Except.ok.inj compiled).symm, ⟨after, checked⟩, fun p here => ?_⟩
      obtain rfl : ignores = some p := here
      rw [Option.bind_some, Predicate.ignoreError?] at allowed
      split at allowed
      · cases allowed
      · cases allowed
      · assumption

end Query

end MutantSieve
