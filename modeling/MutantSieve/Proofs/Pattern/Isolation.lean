import MutantSieve.Pattern.Predicate

namespace MutantSieve

namespace Predicate

/-- The slots that may be bound anew once the predicate has accepted. -/
def mayBind : Predicate → List SlotKey
  | plain _ | sameVariable _ | sameToken _ | negate _ => []
  | captureVariable slot => [slot.key]
  | captureToken slot => [slot.key]
  | and p q => p.mayBind ++ q.mayBind
  | or p q => p.mayBind ++ q.mayBind

/-- The predicate may capture and does not declare it. -/
def hidesCapture (p : Predicate) : Bool := !p.mayBind.isEmpty && !p.captures

/-- No part hides a capture that `and` or `negate` may have to undo. -/
def candid : Predicate → Bool
  | plain _ | captureVariable _ | sameVariable _ | captureToken _ | sameToken _ => true
  | and p q => !p.hidesCapture && p.candid && q.candid
  | or p q => p.candid && q.candid
  | negate p => !p.hidesCapture && p.candid

variable {p q : Predicate} {token : Token} {c : Context}

theorem captures_or_mayBind_nil (shown : p.hidesCapture = false) :
    p.captures = true ∨ p.mayBind = [] := by
  by_cases captures : p.captures = true
  · exact .inl captures
  · simp only [hidesCapture, captures, Bool.not_false, Bool.and_true, Bool.not_eq_false'] at shown
    exact .inr (List.isEmpty_iff.mp shown)

theorem candid_and (candid : (and p q).candid = true) :
    (p.captures = true ∨ p.mayBind = []) ∧ p.candid = true ∧ q.candid = true := by
  simp only [Predicate.candid, Bool.and_eq_true, Bool.not_eq_true'] at candid
  exact ⟨captures_or_mayBind_nil candid.1.1, candid.1.2, candid.2⟩

theorem candid_negate (candid : (negate p).candid = true) :
    (p.captures = true ∨ p.mayBind = []) ∧ p.candid = true := by
  simp only [Predicate.candid, Bool.and_eq_true, Bool.not_eq_true'] at candid
  exact ⟨captures_or_mayBind_nil candid.1, candid.2⟩

/-- A slot that may not be bound anew is left alone. -/
theorem get?_of_not_mem_mayBind {key : SlotKey} (candid : p.candid = true)
    (spared : key ∉ p.mayBind) : (p.test token c).2.get? key = c.get? key := by
  induction p generalizing c with
  | plain | sameVariable | sameToken => rfl
  | captureVariable slot =>
    unfold test
    split
    · exact Context.get?_store_of_ne rfl (List.ne_of_not_mem_cons spared)
    · rfl
  | captureToken slot => exact Context.get?_store_of_ne rfl (List.ne_of_not_mem_cons spared)
  | and p q ihp ihq =>
    obtain ⟨-, candidLeft, candidRight⟩ := candid_and candid
    rw [mayBind, List.mem_append, not_or] at spared
    have left : (p.test token c).2.get? key = c.get? key := ihp candidLeft spared.1
    simp only [test]
    split
    · split
      · exact (ihq candidRight spared.2).trans left
      · rfl
    · split
      · rfl
      · exact left
  | or p q ihp ihq =>
    obtain ⟨candidLeft, candidRight⟩ := Bool.and_eq_true_iff.mp candid
    rw [mayBind, List.mem_append, not_or] at spared
    have left : (p.test token c).2.get? key = c.get? key := ihp candidLeft spared.1
    simp only [test]
    split
    · exact left
    · exact (ihq candidRight spared.2).trans left
  | negate p ih =>
    obtain ⟨shown, candid⟩ := candid_negate candid
    simp only [test]
    split
    · rfl
    · next silent =>
      -- The operand declares no capture, so it makes none.
      have nothing : p.mayBind = [] := shown.resolve_left silent
      exact ih candid (by rw [nothing]; exact List.not_mem_nil)

theorem test_of_mayBind_nil (candid : p.candid = true) (nothing : p.mayBind = []) :
    (p.test token c).2 = c :=
  Context.ext_get? fun key =>
    get?_of_not_mem_mayBind candid (by rw [nothing]; exact List.not_mem_nil)

theorem test_of_negate (candid : (negate p).candid = true) :
    ((negate p).test token c).2 = c := test_of_mayBind_nil candid rfl

/-- A predicate that rejects has left the context alone. -/
theorem test_of_rejects (candid : p.candid = true) (rejects : (p.test token c).1 = false) :
    (p.test token c).2 = c := by
  induction p generalizing c with
  | plain | sameVariable | sameToken => rfl
  | captureVariable slot =>
    simp only [test] at rejects ⊢
    split at rejects
    · cases rejects
    · rfl
  | captureToken => cases rejects
  | and p q ihp ihq =>
    obtain ⟨shown, candidLeft, candidRight⟩ := candid_and candid
    simp only [test] at rejects ⊢
    by_cases left : (p.test token c).1 = true
    · simp only [left, if_true] at rejects ⊢
      rw [rejects, Bool.false_or]
      rcases shown with captures | nothing
      · rw [captures]
        rfl
      · -- Both operands are tested on the context itself, but the first has not changed it.
        have same : (p.test token c).2 = c := test_of_mayBind_nil candidLeft nothing
        rw [same] at rejects ⊢
        rw [ihq candidRight rejects, ite_self]
    · rw [if_neg left, ihp candidLeft (eq_false_of_ne_true left), ite_self]
  | or p q ihp ihq =>
    obtain ⟨candidLeft, candidRight⟩ := Bool.and_eq_true_iff.mp candid
    simp only [test] at rejects ⊢
    split at rejects
    · next left => cases left.symm.trans rejects
    · next left =>
      have same : (p.test token c).2 = c :=
        ihp candidLeft (eq_false_of_ne_true left)
      rw [same] at rejects
      rw [if_neg left, same]
      exact ihq candidRight rejects
  | negate p => exact test_of_negate candid

/-- If no part hides a capture that has to be undone, a predicate that rejects leaves the context
alone, a negation does so whether it accepts or not, and an alternative that accepts leaves the
context that the accepting side alone would have left. -/
theorem test_isolates (p : Predicate) (candid : p.candid = true) (token : Token) (c : Context) :
    ((p.test token c).1 = false → (p.test token c).2 = c) ∧
      (∀ inner, p = negate inner → (p.test token c).2 = c) ∧
      ∀ left right, p = or left right → (p.test token c).1 = true →
        (left.test token c).1 = true ∧ p.test token c = left.test token c ∨
          (left.test token c).1 = false ∧ (right.test token c).1 = true ∧
            p.test token c = right.test token c := by
  refine ⟨test_of_rejects candid, ?_, ?_⟩
  · rintro inner rfl
    exact test_of_negate candid
  · rintro left right rfl accepts
    have candidLeft : left.candid = true := (Bool.and_eq_true_iff.mp candid).1
    simp only [test] at accepts ⊢
    by_cases first : (left.test token c).1 = true
    · rw [if_pos first]
      exact .inl ⟨first, rfl⟩
    · have rejects := eq_false_of_ne_true first
      rw [if_neg first, test_of_rejects candidLeft rejects] at accepts ⊢
      exact .inr ⟨rejects, accepts, rfl⟩

/-- A slot for a token. -/
def tokenSlot : Slot .instruction := ⟨0, "t"⟩

/-- A slot for a variable. -/
def variableSlot : Slot .localVariable := ⟨1, "v"⟩

/-- A token that the first side captures and then rejects, and the second side accepts. -/
def storeToken : Token := ⟨.placed 0, .access .astore 2⟩

theorem test_isolates_secondSide :
    let captured := (captureToken tokenSlot).and (opcode .pop)
    let either := captured.or (captureVariable variableSlot)
    either.candid = true ∧ captured.test storeToken .empty = (false, .empty) ∧
      either.test storeToken .empty = (captureVariable variableSlot).test storeToken .empty := by
  intro captured either
  have rejects : (captured.test storeToken .empty).1 = false := rfl
  have accepts : (either.test storeToken .empty).1 = true := rfl
  obtain ⟨undone, -, -⟩ := test_isolates captured rfl storeToken .empty
  obtain ⟨-, -, sides⟩ := test_isolates either rfl storeToken .empty
  refine ⟨rfl, Prod.ext rejects (undone rejects), ?_⟩
  rcases sides _ _ rfl accepts with ⟨first, -⟩ | ⟨-, -, second⟩
  · cases rejects.symm.trans first
  · exact second

/-- A token that does not name a variable. -/
def nopToken : Token := ⟨.placed 0, .simple .nop⟩

/-- Captures the variable of a token if it names one, else the token; declares neither. -/
def eitherCapture : Predicate := (captureVariable variableSlot).or (captureToken tokenSlot)

/-- The capture of an alternative that captures into different slots stays when the predicate around
it rejects, when it is negated, and when another side of an alternative is taken. -/
theorem test_leaks :
    let failing := eitherCapture.and (plain .never)
    ((failing.test nopToken .empty).1 = false ∧ (failing.test nopToken .empty).2 ≠ .empty) ∧
      (eitherCapture.negate.test nopToken .empty).2 ≠ .empty ∧
      ((failing.or any).test nopToken .empty).1 = true ∧
        ((failing.or any).test nopToken .empty).2 ≠ (any.test nopToken .empty).2 := by
  intro failing
  have different : Context.empty.storeToken tokenSlot nopToken.id ≠ .empty := fun same => by
    have bound := congrArg (·.isBound tokenSlot.key) same
    cases bound
  exact ⟨⟨rfl, different⟩, different, rfl, different⟩

end Predicate

end MutantSieve
