import MutantSieve.Pattern.Program

namespace MutantSieve

/-- A partial match. Two of them at one position and with the same bindings would go on alike, so
only the first is kept. -/
structure Thread where
  position : Nat
  context : Context
deriving DecidableEq

/-- The threads that wait for the next token, the preferred ones first, and for each position of the
program the contexts that have been there since the last token. -/
structure Frontier (size : Nat) where
  threads : Array Thread
  seen : Vector (List Context) size

namespace Frontier

variable {size : Nat}

/-- No thread has been anywhere. -/
def empty : Frontier size := ⟨#[], Vector.replicate size []⟩

/-- Records that a context has been at a position. -/
def visit (f : Frontier size) (position : Nat) (inside : position < size) (c : Context) :
    Frontier size :=
  { f with seen := f.seen.set position (c :: f.seen[position]) }

/-- Adds a thread behind all others. -/
def push (f : Frontier size) (thread : Thread) : Frontier size :=
  { f with threads := f.threads.push thread }

/-- How many positions a context has not been at. -/
def unseen (f : Frontier size) (c : Context) : Nat :=
  f.seen.countP (c ∉ ·)

theorem unseen_visit_lt {f : Frontier size} {position : Nat} {inside : position < size}
    {c : Context} (new : c ∉ f.seen[position]) :
    (f.visit position inside c).unseen c < f.unseen c := by
  have counted : 0 < f.seen.countP (c ∉ ·) :=
    Vector.countP_pos_iff.mpr ⟨f.seen[position], Vector.getElem_mem inside, by simpa using new⟩
  simp only [unseen, visit, Vector.countP_set]
  simp only [new, List.mem_cons, true_or, not_true, not_false_eq_true, decide_true, decide_false,
    if_true, Bool.false_eq_true, if_false]
  omega

theorem unseen_push (f : Frontier size) (thread : Thread) (c : Context) :
    (f.push thread).unseen c = f.unseen c := rfl

end Frontier

/-- Follows splits and jumps from the pending positions, the first of them first, until every thread
waits at a test. There is no frontier if the end of the pattern is reached on the way. -/
def Program.close (program : Program) (c : Context) :
    List Nat → Frontier program.size → Option (Frontier program.size)
  | [], f => some f
  | position :: pending, f =>
    if inside : position < program.size then
      if c ∈ f.seen[position] then program.close c pending f
      else
        match program[position] with
        | .accept => none
        | .jump target => program.close c (target :: pending) (f.visit position inside c)
        | .split first second =>
          program.close c (first :: second :: pending) (f.visit position inside c)
        | .test _ => program.close c pending ((f.visit position inside c).push ⟨position, c⟩)
    else program.close c pending f
termination_by pending f => (f.unseen c, pending.length)
decreasing_by
  · exact Prod.Lex.right _ (by simp)
  · exact Prod.Lex.left _ _ (Frontier.unseen_visit_lt ‹_›)
  · exact Prod.Lex.left _ _ (Frontier.unseen_visit_lt ‹_›)
  · exact Prod.Lex.left _ _ (Frontier.unseen_visit_lt ‹_›)
  · exact Prod.Lex.right _ (by simp)

end MutantSieve
