import MutantSieve.Capture.Slot
import MutantSieve.SortedMap.Lemmas

namespace MutantSieve

/-- The slots bound so far and their values. -/
structure Context where
  bindings : SortedMap SlotKey Value
  typed : ∀ binding ∈ bindings.entries, binding.2.kind = binding.1.kind

namespace Context

/-- The context that binds nothing. -/
def empty : Context := ⟨∅, by simp [EmptyCollection.emptyCollection, SortedMap.empty]⟩

/-- The value bound to a slot. -/
def get? (c : Context) (key : SlotKey) : Option Value := c.bindings.get? key

/-- Whether a slot is bound. -/
def isBound (c : Context) (key : SlotKey) : Bool := (c.get? key).isSome

/-- How many slots are bound. -/
def size (c : Context) : Nat := c.bindings.size

/-- Binds a slot, replacing an earlier binding of it. -/
def store (c : Context) (key : SlotKey) (value : Value) (typed : value.kind = key.kind) :
    Context where
  bindings := c.bindings.insert key value
  typed binding member := by
    rcases SortedMap.mem_place member with rfl | old
    · exact typed
    · exact c.typed binding old

/-- Binds a slot to the number of a local variable. -/
def storeIndex (c : Context) (slot : Slot .localVariable) (number : UInt64) : Context :=
  c.store slot.key (.index number) rfl

/-- Binds a slot to a token. -/
def storeToken (c : Context) (slot : Slot .instruction) (id : TokenId) : Context :=
  c.store slot.key (.token id) rfl

/-- The variable number bound to a slot. -/
def localIndex? (c : Context) (slot : Slot .localVariable) : Option UInt64 :=
  (c.get? slot.key).bind Value.index?

/-- The token bound to a slot. -/
def token? (c : Context) (slot : Slot .instruction) : Option TokenId :=
  (c.get? slot.key).bind Value.token?

/-- Whether two contexts bind the same number of slots, and each slot of the first has the same
value in the second. -/
def sameBindings (a b : Context) : Bool :=
  a.size == b.size && a.bindings.entries.all fun binding => b.get? binding.1 == some binding.2

theorem get?_store (c : Context) (key key' : SlotKey) (value : Value)
    (typed : value.kind = key.kind) :
    (c.store key value typed).get? key' = if key' = key then some value else c.get? key' :=
  SortedMap.get?_insert c.bindings key key' value

theorem get?_store_of_ne {c : Context} {key key' : SlotKey} {value : Value}
    (typed : value.kind = key.kind) (other : key' ≠ key) :
    (c.store key value typed).get? key' = c.get? key' :=
  (c.get?_store key key' value typed).trans (if_neg other)

@[simp] theorem get?_empty (key : SlotKey) : empty.get? key = none := rfl

theorem ext_get? {a b : Context} (same : ∀ key, a.get? key = b.get? key) : a = b := by
  have bindings : a.bindings = b.bindings := SortedMap.ext_get? same
  cases a
  cases b
  simpa using bindings

theorem kind_of_get? {c : Context} {key : SlotKey} {value : Value}
    (bound : c.get? key = some value) : value.kind = key.kind :=
  c.typed (key, value) (SortedMap.get?_eq_some_iff.mp bound)

theorem sameBindings_iff {a b : Context} : a.sameBindings b = true ↔ a = b := by
  refine ⟨fun same => ?_, fun same => ?_⟩
  · simp only [sameBindings, Bool.and_eq_true, beq_iff_eq, List.all_eq_true] at same
    have bindings : a.bindings = b.bindings := SortedMap.eq_of_subset same.1 fun binding member =>
      SortedMap.get?_eq_some_iff.mp (same.2 binding member)
    cases a
    cases b
    simpa using bindings
  · subst same
    simp only [sameBindings, beq_self_eq_true, Bool.true_and, List.all_eq_true, beq_iff_eq]
    exact fun binding member => SortedMap.get?_eq_some_iff.mpr member

/-- Whether two lists of bindings are equal. Values differ more often than slots, so they are
compared first. -/
def sameEntries : List (SlotKey × Value) → List (SlotKey × Value) → Bool
  | [], [] => true
  | (key, value) :: rest, (key', value') :: rest' =>
    value = value' && key = key' && sameEntries rest rest'
  | _, _ => false

theorem sameEntries_iff {as bs : List (SlotKey × Value)} :
    sameEntries as bs = true ↔ as = bs := by
  induction as generalizing bs with
  | nil => cases bs <;> simp [sameEntries]
  | cons binding rest ih =>
    cases bs with
    | nil => simp [sameEntries]
    | cons binding' rest' => simp [sameEntries, ih, Prod.ext_iff, and_comm]

theorem eq_iff_sameEntries {a b : Context} :
    sameEntries a.bindings.entries b.bindings.entries = true ↔ a = b := by
  refine sameEntries_iff.trans ⟨fun same => ?_, fun same => same ▸ rfl⟩
  have bindings : a.bindings = b.bindings := SortedMap.ext same
  cases a
  cases b
  simpa using bindings

instance : DecidableEq Context := fun _ _ => decidable_of_iff _ eq_iff_sameEntries

end Context

end MutantSieve
