import MutantSieve.Capture.Context
import MutantSieve.Pattern.InstructionTest

namespace MutantSieve

/-- The slots of one list, then those that only another list has. -/
def withSlots (first second : List SlotKey) : List SlotKey := first ++ second.filter (· ∉ first)

/-- The slots of one list that another list has too. -/
def commonSlots (first second : List SlotKey) : List SlotKey := first.filter (· ∈ second)

/-- A test of a token in a context. It declares what it captures, and only where something is
declared do `and` and `negate` test on a copy of the context, which is dropped if the test fails. -/
inductive Predicate where
  /-- Tests the instruction alone. -/
  | plain (test : InstructionTest)
  /-- Accepts any load or store and captures the number of its variable. -/
  | captureVariable (slot : Slot .localVariable)
  /-- Accepts a load or store of the captured variable. -/
  | sameVariable (slot : Slot .localVariable)
  /-- Accepts and captures every token. -/
  | captureToken (slot : Slot .instruction)
  /-- Accepts the captured token and no other. -/
  | sameToken (slot : Slot .instruction)
  | and (left right : Predicate)
  | or (left right : Predicate)
  | negate (inner : Predicate)
with
  /-- The slots that a predicate is sure to bind when it accepts. They are kept with the predicate,
  since each test asks for them again. -/
  @[computed_field] writes : Predicate → List SlotKey
  | .plain _ | .sameVariable _ | .sameToken _ | .negate _ => []
  | .captureVariable slot => [slot.key]
  | .captureToken slot => [slot.key]
  | .and p q => withSlots p.writes q.writes
  | .or p q => commonSlots p.writes q.writes
deriving DecidableEq

namespace Predicate

/-- The slots that a predicate may read before it has bound them itself. -/
def reads : Predicate → List SlotKey
  | plain _ | captureVariable _ | captureToken _ => []
  | sameVariable slot => [slot.key]
  | sameToken slot => [slot.key]
  | and p q => withSlots p.reads (q.reads.filter (· ∉ p.writes))
  | or p q => withSlots p.reads q.reads
  | negate p => p.reads

/-- Whether a predicate declares that it captures. -/
def captures (p : Predicate) : Bool := !p.writes.isEmpty

/-- Tests a token; answers whether it is accepted and the context afterwards. -/
def test : Predicate → Token → Context → Bool × Context
  | plain t, token, c => (t.accepts token.instruction, c)
  | captureVariable slot, token, c =>
    match token.instruction.localIndex? with
    | some number => (true, c.storeIndex slot number)
    | none => (false, c)
  | sameVariable slot, token, c =>
    (token.instruction.localIndex?.any fun number => c.localIndex? slot = some number, c)
  | captureToken slot, token, c => (true, c.storeToken slot token.id)
  | sameToken slot, token, c => (c.token? slot = some token.id, c)
  | and p q, token, c =>
    let left := p.test token c
    if left.1 then
      let right := q.test token left.2
      (right.1, if right.1 || !p.captures then right.2 else c)
    else (false, if p.captures then c else left.2)
  | or p q, token, c =>
    let left := p.test token c
    if left.1 then left else q.test token left.2
  | negate p, token, c =>
    let inner := p.test token c
    (!inner.1, if p.captures then c else inner.2)

/-- Any one instruction. -/
def any : Predicate := plain .any

/-- An instruction with an operation. -/
def opcode (op : Opcode) : Predicate := plain (.opcode op)

/-- A call of a method, by the method's owner and name. -/
def callTo (owner name : String) : Predicate := plain (.callTo owner name)

/-- A label, line number or frame. -/
def marker : Predicate := plain .marker

/-- One of several predicates, tried in order; of none, no instruction. -/
def anyOf : List Predicate → Predicate
  | [] => plain .never
  | p :: rest => rest.foldl or p

end Predicate

end MutantSieve
