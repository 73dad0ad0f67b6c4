import MutantSieve.Text.Blank

namespace MutantSieve

/-- How far a text has been read: the number of bytes read, and what is left. -/
structure Cursor where
  position : Nat
  rest : List Char

/-- How many bytes the UTF-8 form of some characters has. -/
def utf8Length (cs : List Char) : Nat := cs.foldl (fun n c => n + c.utf8Size) 0

theorem foldl_utf8Size (n : Nat) (cs : List Char) :
    cs.foldl (fun n c => n + c.utf8Size) n = n + utf8Length cs := by
  induction cs generalizing n with
  | nil => rfl
  | cons c cs ih =>
    have rest : utf8Length (c :: cs) = c.utf8Size + utf8Length cs := by
      rw [utf8Length, List.foldl_cons, Nat.zero_add, ih]
    rw [List.foldl_cons, ih, rest, Nat.add_assoc]

theorem utf8Length_cons (c : Char) (cs : List Char) :
    utf8Length (c :: cs) = c.utf8Size + utf8Length cs := by
  rw [utf8Length, List.foldl_cons, Nat.zero_add, foldl_utf8Size]

theorem utf8Length_append (as bs : List Char) :
    utf8Length (as ++ bs) = utf8Length as + utf8Length bs := by
  rw [utf8Length, List.foldl_append, foldl_utf8Size]
  rfl

namespace Cursor

/-- The start of a text. -/
def start (text : String) : Cursor := ⟨0, text.toList⟩

/-- The characters up to the first that fails a test, and the cursor behind them. -/
def span (cur : Cursor) (p : Char → Bool) : List Char × Cursor :=
  let taken := cur.rest.takeWhile p
  (taken, ⟨cur.position + utf8Length taken, cur.rest.dropWhile p⟩)

/-- Passes over white space. -/
def skipBlanks (cur : Cursor) : Cursor := (cur.span Text.isBlank).2

/-- Passes over a character if it is the next one. -/
def skip? (cur : Cursor) (c : Char) : Option Cursor :=
  match cur.rest with
  | d :: rest => if d = c then some ⟨cur.position + c.utf8Size, rest⟩ else none
  | [] => none

theorem span_rest_length (cur : Cursor) (p : Char → Bool) :
    (cur.span p).1.length + (cur.span p).2.rest.length = cur.rest.length := by
  simp only [span]
  rw [← List.length_append, List.takeWhile_append_dropWhile]

theorem skipBlanks_rest_length (cur : Cursor) : cur.skipBlanks.rest.length ≤ cur.rest.length := by
  have := cur.span_rest_length Text.isBlank
  simp only [skipBlanks]
  omega

theorem skip?_rest_length {cur next : Cursor} {c : Char} (skipped : cur.skip? c = some next) :
    next.rest.length + 1 = cur.rest.length := by
  unfold skip? at skipped
  grind

end Cursor

end MutantSieve
