import MutantSieve.Proofs.Pattern.Isolation
import MutantSieve.Proofs.Pattern.SlotUsage

namespace MutantSieve.Predicate

/-- The two sides of every alternative declare the same writes. -/
def SidesAgree : Predicate → Prop
  | plain _ | captureVariable _ | sameVariable _ | captureToken _ | sameToken _ => True
  | and p q => p.SidesAgree ∧ q.SidesAgree
  | or p q => p.SidesAgree ∧ q.SidesAgree ∧ ∀ key, key ∈ p.writes ↔ key ∈ q.writes
  | negate p => p.SidesAgree

variable {p : Predicate}

/-- Every slot that may be bound anew is declared. -/
theorem SidesAgree.mayBind_subset (agree : p.SidesAgree) : p.mayBind ⊆ p.writes := by
  induction p with
  | plain | sameVariable | sameToken | negate => exact List.nil_subset _
  | captureVariable | captureToken => exact List.Subset.refl _
  | and p q ihp ihq =>
    obtain ⟨agreeLeft, agreeRight⟩ := agree
    intro key member
    rcases List.mem_append.mp member with inLeft | inRight
    · exact mem_withSlots.mpr (.inl (ihp agreeLeft inLeft))
    · exact mem_withSlots.mpr (.inr (ihq agreeRight inRight))
  | or p q ihp ihq =>
    obtain ⟨agreeLeft, agreeRight, same⟩ := agree
    intro key member
    rcases List.mem_append.mp member with inLeft | inRight
    · have written := ihp agreeLeft inLeft
      exact mem_commonSlots.mpr ⟨written, (same key).mp written⟩
    · have written := ihq agreeRight inRight
      exact mem_commonSlots.mpr ⟨(same key).mpr written, written⟩

theorem SidesAgree.hidesCapture_eq (agree : p.SidesAgree) : p.hidesCapture = false := by
  unfold hidesCapture captures
  by_cases silent : p.writes = []
  · have nothing : p.mayBind ⊆ [] := silent ▸ agree.mayBind_subset
    rw [List.subset_nil.mp nothing]
    rfl
  · rw [List.isEmpty_eq_false_iff.mpr silent, Bool.not_false, Bool.not_true, Bool.and_false]

theorem SidesAgree.candid (agree : p.SidesAgree) : p.candid = true := by
  induction p with
  | plain | captureVariable | sameVariable | captureToken | sameToken => rfl
  | and p q ihp ihq =>
    obtain ⟨agreeLeft, agreeRight⟩ := agree
    rw [Predicate.candid, agreeLeft.hidesCapture_eq, ihp agreeLeft, ihq agreeRight]
    rfl
  | or p q ihp ihq =>
    obtain ⟨agreeLeft, agreeRight, -⟩ := agree
    rw [Predicate.candid, ihp agreeLeft, ihq agreeRight]
    rfl
  | negate p ih =>
    have inner : p.SidesAgree := agree
    rw [Predicate.candid, inner.hidesCapture_eq, ih inner]
    rfl

/-- If the two sides of every alternative declare the same writes, a predicate that rejects a token
leaves the context alone. One that accepts it binds each slot that it declares to the variable of
the instruction or to the token itself, as the slot can hold, and leaves all other slots alone. -/
theorem test_writes_exactly (p : Predicate) (agree : p.SidesAgree) (token : Token) (c : Context) :
    ((p.test token c).1 = false → (p.test token c).2 = c) ∧
      ((p.test token c).1 = true →
        (∀ key ∈ p.writes, token.Supplied (p.test token c).2 key) ∧
          ∀ key, key ∉ p.writes → (p.test token c).2.get? key = c.get? key) := by
  refine ⟨test_of_rejects agree.candid, fun accepts => ⟨?_, ?_⟩⟩
  · intro key written
    exact supplied_of_accepts accepts written
  · intro key unwritten
    exact get?_of_not_mem_mayBind agree.candid fun member => unwritten (agree.mayBind_subset member)

/-- A store, captured together with its variable. Only the first side of the alternative has a
capture to undo. -/
def capturedStore : Predicate :=
  (((captureVariable variableSlot).and (opcode .astore)).or
    ((opcode .istore).and (captureVariable variableSlot))).and (captureToken tokenSlot)

/-- A slot that the store is not captured into. -/
def otherSlot : Slot .instruction := ⟨2, "other"⟩

theorem test_writes_exactly_capturedStore :
    let before := (Context.empty.storeToken otherSlot (.detached 0)).storeIndex variableSlot 7
    let after := (capturedStore.test storeToken before).2
    capturedStore.SidesAgree ∧ after.get? variableSlot.key = some (.index 2) ∧
      after.get? tokenSlot.key = some (.token storeToken.id) ∧
      after.get? otherSlot.key = some (.token (.detached 0)) ∧
      (capturedStore.test nopToken before).2 = before := by
  intro before after
  have agree : capturedStore.SidesAgree :=
    ⟨⟨⟨trivial, trivial⟩, ⟨trivial, trivial⟩, fun _ => Iff.rfl⟩, trivial⟩
  obtain ⟨-, accepted⟩ := test_writes_exactly capturedStore agree storeToken before
  obtain ⟨rejected, -⟩ := test_writes_exactly capturedStore agree nopToken before
  obtain ⟨supplied, others⟩ := accepted rfl
  obtain ⟨index, suppliesIndex, atVariable⟩ := supplied variableSlot.key (by decide)
  obtain ⟨id, suppliesToken, atToken⟩ := supplied tokenSlot.key (by decide)
  have kept : after.get? otherSlot.key = before.get? otherSlot.key := others _ (by decide)
  exact ⟨agree, atVariable.trans suppliesIndex.symm, atToken.trans suppliesToken.symm, kept,
    rejected rfl⟩

end MutantSieve.Predicate
