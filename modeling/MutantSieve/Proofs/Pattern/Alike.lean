import MutantSieve.Proofs.Pattern.Composition
import Mathlib.Data.List.Forall2

namespace MutantSieve

/-- Equality of values, for numbers given by their encodings: of two numbers with equal values, both
have the value of a third one or neither has. -/
theorem sameValue_congr_of_bits {α β : Type} [BEq β] [LawfulBEq β] {sameValue : α → α → Bool}
    {bits : α → β} {magnitude : α → Nat} {infinity : Nat} (encoding : Function.Injective bits)
    (sameValue_eq : ∀ x y, sameValue x y =
      (decide (magnitude x ≤ infinity) && decide (magnitude y ≤ infinity) &&
        (bits x == bits y || (magnitude x == 0 && magnitude y == 0))))
    {x y : α} (same : sameValue x y = true) (z : α) : sameValue z x = sameValue z y := by
  have zero {x z : α} (isZero : magnitude x = 0) : sameValue z x = (magnitude z == 0) := by
    rw [sameValue_eq, isZero]
    by_cases here : magnitude z = 0
    · simp [here]
    · have other : bits z ≠ bits x := fun equal => here (encoding equal ▸ isZero)
      simp [beq_false_of_ne here, beq_false_of_ne other]
  rw [sameValue_eq] at same
  simp only [Bool.and_eq_true, Bool.or_eq_true, beq_iff_eq] at same
  obtain ⟨-, equal | ⟨left, right⟩⟩ := same
  · rw [encoding equal]
  · rw [zero left, zero right]

theorem Binary32.sameValue_congr {x y : Binary32} (same : x.sameValue y = true) (z : Binary32) :
    z.sameValue x = z.sameValue y :=
  sameValue_congr_of_bits (fun _ _ => congrArg Binary32.mk) (fun _ _ => rfl) same z

theorem Binary64.sameValue_congr {x y : Binary64} (same : x.sameValue y = true) (z : Binary64) :
    z.sameValue x = z.sameValue y :=
  sameValue_congr_of_bits (fun _ _ => congrArg Binary64.mk) (fun _ _ => rfl) same z

theorem Constant.sameValue_congr {a b : Constant} (same : a.sameValue b = true) (c : Constant) :
    c.sameValue a = c.sameValue b := by
  cases a with
  | float x =>
    cases b with
    | float y =>
      cases c with
      | float z => exact Binary32.sameValue_congr same z
      | _ => rfl
    | _ => cases same
  | double x =>
    cases b with
    | double y =>
      cases c with
      | double z => exact Binary64.sameValue_congr same z
      | _ => rfl
    | _ => cases same
  | _ => rw [of_decide_eq_true same]

namespace Instruction

/-- No test of a single instruction tells two instructions apart, nor does the variable that they
access. -/
structure Alike (i j : Instruction) : Prop where
  accepts (t : InstructionTest) : t.accepts i = t.accepts j
  localIndex : i.localIndex? = j.localIndex?

variable {i j : Instruction}

theorem Alike.refl (i : Instruction) : i.Alike i := ⟨fun _ => rfl, rfl⟩

theorem Alike.symm (alike : i.Alike j) : j.Alike i :=
  ⟨fun t => (alike.accepts t).symm, alike.localIndex.symm⟩

theorem Alike.opcode_eq (alike : i.Alike j) : i.opcode? = j.opcode? := by
  refine Option.ext fun op => ?_
  have same : decide (i.opcode? = some op) = decide (j.opcode? = some op) :=
    alike.accepts (.opcode op)
  exact decide_eq_decide.mp same

theorem Alike.of_sameValue (same : i.sameValue j = true) : i.Alike j := by
  cases i with
  | constant a =>
    cases j with
    | constant b =>
      refine ⟨fun t => ?_, rfl⟩
      cases t with
      | loadsConstant c => exact Constant.sameValue_congr same c
      | _ => rfl
    | _ => cases same
  | _ =>
    obtain rfl := of_decide_eq_true same
    exact .refl _

end Instruction

namespace Context

/-- Two contexts have the same variable numbers, or none, in all slots for them. -/
def SameVariables (a b : Context) : Prop :=
  ∀ slot : Slot .localVariable, a.get? slot.key = b.get? slot.key

theorem SameVariables.storeIndex {a b : Context} (same : SameVariables a b)
    (slot : Slot .localVariable) (number : UInt64) :
    SameVariables (a.storeIndex slot number) (b.storeIndex slot number) := by
  intro slot'
  have stored (c : Context) : (c.storeIndex slot number).get? slot'.key =
      if slot'.key = slot.key then some (.index number) else c.get? slot'.key := get?_store ..
  rw [stored, stored, same slot']

theorem get?_storeToken (c : Context) (slot : Slot .instruction) (id : TokenId)
    (slot' : Slot .localVariable) : (c.storeToken slot id).get? slot'.key = c.get? slot'.key :=
  get?_store_of_ne rfl fun same => nomatch congrArg SlotKey.kind same

end Context

open Context

namespace Predicate

/-- No leaf compares a token with a captured one. -/
def anonymous : Predicate → Bool
  | sameToken _ => false
  | plain _ | captureVariable _ | sameVariable _ | captureToken _ => true
  | and p q | or p q => p.anonymous && q.anonymous
  | negate p => p.anonymous

variable {p : Predicate} {token token' : Token} {a b : Context}

theorem test_alike (anonymous : p.anonymous = true)
    (alike : token.instruction.Alike token'.instruction) (same : SameVariables a b) :
    (p.test token a).1 = (p.test token' b).1 ∧
      SameVariables (p.test token a).2 (p.test token' b).2 := by
  induction p generalizing a b with
  | plain t => exact ⟨alike.accepts t, same⟩
  | captureVariable slot =>
    simp only [test, alike.localIndex]
    split
    · exact ⟨rfl, same.storeIndex slot _⟩
    · exact ⟨rfl, same⟩
  | sameVariable slot =>
    have captured : a.localIndex? slot = b.localIndex? slot :=
      congrArg (·.bind Value.index?) (same slot)
    exact ⟨by simp only [test, alike.localIndex, captured], same⟩
  | captureToken slot =>
    exact ⟨rfl, fun slot' => by simpa only [test, get?_storeToken] using same slot'⟩
  | sameToken slot => cases anonymous
  | and p q ihp ihq =>
    obtain ⟨onLeft, onRight⟩ := Bool.and_eq_true_iff.mp anonymous
    obtain ⟨left, leftSame⟩ := ihp onLeft same
    obtain ⟨right, rightSame⟩ := ihq onRight leftSame
    simp only [test, ← left, ← right]
    refine ⟨by split <;> rfl, ?_⟩
    split
    · split
      · exact rightSame
      · exact same
    · split
      · exact same
      · exact leftSame
  | or p q ihp ihq =>
    obtain ⟨onLeft, onRight⟩ := Bool.and_eq_true_iff.mp anonymous
    obtain ⟨left, leftSame⟩ := ihp onLeft same
    simp only [test, ← left]
    split
    · exact ⟨left, leftSame⟩
    · exact ihq onRight leftSame
  | negate p ih =>
    obtain ⟨inner, innerSame⟩ := ih anonymous same
    simp only [test, ← inner, true_and]
    split
    · exact same
    · exact innerSame

theorem accepts_alike {a' : Context} (accepts : p.test token a = (true, a'))
    (anonymous : p.anonymous = true) (alike : token.instruction.Alike token'.instruction)
    (same : SameVariables a b) : ∃ b', p.test token' b = (true, b') ∧ SameVariables a' b' := by
  have both := test_alike anonymous alike same
  rw [accepts] at both
  exact ⟨(p.test token' b).2, Prod.ext both.1.symm rfl, both.2⟩

end Predicate

/-- The code that is alike to the first one ends the second one. -/
def EndsAlike (code code' : List Instruction) : Prop :=
  ∃ rest, rest <:+ code' ∧ List.Forall₂ Instruction.Alike code rest

theorem EndsAlike.exists_shift {code code' : List Instruction} (ends : EndsAlike code code') :
    ∃ n, code'.length = n + code.length ∧ ∀ (j : Nat) (i : Instruction), code[j]? = some i →
      ∃ i', code'[n + j]? = some i' ∧ i.Alike i' := by
  obtain ⟨rest, ⟨skipped, rfl⟩, alike⟩ := ends
  refine ⟨skipped.length, by rw [List.length_append, alike.length_eq], fun j i here => ?_⟩
  obtain ⟨within, rfl⟩ := List.getElem?_eq_some_iff.mp here
  have within' : j < rest.length := alike.length_eq ▸ within
  refine ⟨rest[j], ?_, alike.get within within'⟩
  rw [List.getElem?_append_right (Nat.le_add_right _ _), Nat.add_sub_cancel_left,
    List.getElem?_eq_getElem within']

theorem EndsAlike.getLast? {code code' : List Instruction} (ends : EndsAlike code code')
    {last : Instruction} (here : code.getLast? = some last) :
    ∃ last', code'.getLast? = some last' ∧ last.Alike last' := by
  obtain ⟨n, length, alike⟩ := ends.exists_shift
  rw [List.getLast?_eq_getElem?] at here ⊢
  have nonempty := (List.getElem?_eq_some_iff.mp here).1
  obtain ⟨last', here', similar⟩ := alike _ _ here
  have place : code'.length - 1 = n + (code.length - 1) := by omega
  exact ⟨last', place ▸ here', similar⟩

namespace Query

/-- No leaf compares a token with a captured one. -/
def anonymous : Query → Bool
  | done => true
  | accept p rest | reject p rest => p.anonymous && rest.anonymous
  | either left right rest => left.anonymous && right.anonymous && rest.anonymous
  | repeated body rest => body.anonymous && rest.anonymous

variable {tokens tokens' : List Token} {q : Query} {i k n : Nat} {a b a' : Context}

/-- A derivation goes through in other tokens, some places further on, whose instructions look
alike. -/
theorem Derives.shift (derivation : Derives tokens q i a k a') (anonymous : q.anonymous = true)
    (alike : ∀ (j : Nat) (token : Token), tokens[j]? = some token →
      ∃ token', tokens'[n + j]? = some token' ∧ token.instruction.Alike token'.instruction)
    (same : SameVariables a b) :
    ∃ b', Derives tokens' q (n + i) b (n + k) b' ∧ SameVariables a' b' := by
  -- All along, the contexts differ only in what was captured of tokens, which no leaf looks at.
  induction derivation generalizing b with
  | done => exact ⟨b, .done, same⟩
  | accept here accepts _ ih =>
    obtain ⟨onTest, onRest⟩ := Bool.and_eq_true_iff.mp anonymous
    obtain ⟨token', here', similar⟩ := alike _ _ here
    obtain ⟨b₁, accepts', same⟩ := Predicate.accepts_alike accepts onTest similar same
    obtain ⟨b', later, same⟩ := ih onRest same
    exact ⟨b', .accept here' accepts' later, same⟩
  | reject here rejects _ ih =>
    obtain ⟨onTest, onRest⟩ := Bool.and_eq_true_iff.mp anonymous
    obtain ⟨token', here', similar⟩ := alike _ _ here
    obtain ⟨b₁, rejects', same⟩ := Predicate.accepts_alike rejects onTest similar same
    obtain ⟨b', later, same⟩ := ih onRest same
    exact ⟨b', .reject here' rejects' later, same⟩
  | left _ _ ihSide ih =>
    simp only [Query.anonymous, Bool.and_eq_true] at anonymous
    obtain ⟨b₁, side, same⟩ := ihSide anonymous.1.1 same
    obtain ⟨b', later, same⟩ := ih anonymous.2 same
    exact ⟨b', .left side later, same⟩
  | right _ _ ihSide ih =>
    simp only [Query.anonymous, Bool.and_eq_true] at anonymous
    obtain ⟨b₁, side, same⟩ := ihSide anonymous.1.2 same
    obtain ⟨b', later, same⟩ := ih anonymous.2 same
    exact ⟨b', .right side later, same⟩
  | leave _ ih =>
    obtain ⟨b', later, same⟩ := ih (Bool.and_eq_true_iff.mp anonymous).2 same
    exact ⟨b', .leave later, same⟩
  | round _ _ ihBody ih =>
    obtain ⟨b₁, round, same⟩ := ihBody (Bool.and_eq_true_iff.mp anonymous).1 same
    obtain ⟨b', later, same⟩ := ih anonymous same
    exact ⟨b', .round round later, same⟩

theorem MatchesEnd.transfer (found : MatchesEnd tokens q a) (anonymous : q.anonymous = true)
    (ends : EndsAlike (tokens.map (·.instruction)) (tokens'.map (·.instruction)))
    (same : SameVariables a b) : MatchesEnd tokens' q b := by
  obtain ⟨start, a', derivation⟩ := found
  obtain ⟨n, length, alike⟩ := ends.exists_shift
  rw [List.length_map, List.length_map] at length
  have alike' (j : Nat) (token : Token) (here : tokens[j]? = some token) :
      ∃ token', tokens'[n + j]? = some token' ∧ token.instruction.Alike token'.instruction := by
    have instruction : (tokens.map (·.instruction))[j]? = some token.instruction := by
      rw [List.getElem?_map, here, Option.map_some]
    obtain ⟨_, here', similar⟩ := alike j token.instruction instruction
    rw [List.getElem?_map] at here'
    obtain ⟨token', found, rfl⟩ := Option.map_eq_some_iff.mp here'
    exact ⟨token', found, similar⟩
  obtain ⟨b', shifted, -⟩ := derivation.shift anonymous alike' same
  exact ⟨n + start, b', length ▸ shifted⟩

end Query

end MutantSieve
