import MutantSieve.Bytecode.Body

namespace MutantSieve

/-- What a slot holds: the number of a local variable, or an instruction token. -/
inductive SlotKind where
  | localVariable
  | instruction
deriving DecidableEq

/-- A slot for one kind of value. Slots of one name with different serial numbers are different. -/
structure Slot (kind : SlotKind) where
  serial : Nat
  name : String
deriving DecidableEq

/-- A slot of either kind. -/
structure SlotKey where
  serial : Nat
  kind : SlotKind
  name : String
deriving DecidableEq

/-- The slot with its kind as data. -/
def Slot.key {kind : SlotKind} (slot : Slot kind) : SlotKey := ⟨slot.serial, kind, slot.name⟩

theorem Slot.key_injective {kind : SlotKind} {a b : Slot kind} (same : a.key = b.key) : a = b := by
  cases a
  cases b
  simpa [key] using same

/-- Slots for variables come before slots for instructions. -/
def SlotKind.rank : SlotKind → Nat
  | localVariable => 0
  | instruction => 1

/-- Slots by serial number, then by kind, then by name. -/
def SlotKey.order : SlotKey → SlotKey → Ordering :=
  compareLex (compareOn SlotKey.serial)
    (compareLex (compareOn fun key => key.kind.rank) (compareOn SlotKey.name))

instance : Ord SlotKey := ⟨SlotKey.order⟩

instance : Std.TransOrd SlotKey := by
  unfold Std.TransOrd
  exact inferInstanceAs (Std.TransCmp (compareLex (compareOn SlotKey.serial)
    (compareLex (compareOn fun key => key.kind.rank) (compareOn SlotKey.name))))

instance : Std.LawfulEqOrd SlotKey where
  eq_of_compare {a b} same := by
    obtain ⟨serials, kinds, names⟩ : compare a.serial b.serial = .eq ∧
        compare a.kind.rank b.kind.rank = .eq ∧ compare a.name b.name = .eq := by
      change SlotKey.order a b = .eq at same
      simpa only [SlotKey.order, compareLex, compareOn, Ordering.then_eq_eq] using same
    have ranks := Std.LawfulEqCmp.eq_of_compare kinds
    obtain ⟨s, k, n⟩ := a
    obtain ⟨s', k', n'⟩ := b
    obtain rfl : s = s' := Std.LawfulEqCmp.eq_of_compare serials
    obtain rfl : n = n' := Std.LawfulEqCmp.eq_of_compare names
    cases k <;> cases k' <;> simp_all [SlotKind.rank]

/-- What a slot can hold. -/
inductive Value where
  | index (number : UInt64)
  | token (id : TokenId)
deriving DecidableEq

namespace Value

/-- The kind of slot that can hold a value. -/
def kind : Value → SlotKind
  | index _ => .localVariable
  | token _ => .instruction

/-- The number of a local variable. -/
def index? : Value → Option UInt64
  | index n => some n
  | token _ => none

/-- The identity of a token. -/
def token? : Value → Option TokenId
  | index _ => none
  | token id => some id

end Value

end MutantSieve
