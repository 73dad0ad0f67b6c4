import MutantSieve.Text.Cursor
import Mathlib.Data.List.TakeWhile

namespace MutantSieve

namespace Text

variable {text text' rest rest' : List Char}

theorem takeWhile_upTo {c : Char} (absent : c ∉ text) :
    (text ++ c :: rest).takeWhile (· ≠ c) = text := by
  have passes : ∀ d ∈ text, decide (d ≠ c) = true := fun d member =>
    decide_eq_true fun same => absent (same ▸ member)
  rw [List.takeWhile_append_of_pos passes, List.takeWhile_cons_of_neg (by simp), List.append_nil]

theorem upTo_unique {c : Char} (absent : c ∉ text) (absent' : c ∉ text')
    (same : text ++ c :: rest = text' ++ c :: rest') : text = text' ∧ rest = rest' := by
  have texts : text = text' := by rw [← takeWhile_upTo absent, same, takeWhile_upTo absent']
  subst texts
  exact ⟨rfl, (List.cons.inj (List.append_cancel_left same)).2⟩

theorem fromLast_unique {c : Char} (absent : c ∉ rest) (absent' : c ∉ rest')
    (same : text ++ c :: rest = text' ++ c :: rest') : text = text' ∧ rest = rest' := by
  have mirrored : rest.reverse ++ c :: text.reverse = rest'.reverse ++ c :: text'.reverse := by
    simpa using congrArg List.reverse same
  obtain ⟨behind, before⟩ := upTo_unique (mt List.mem_reverse.mp absent)
    (mt List.mem_reverse.mp absent') mirrored
  exact ⟨List.reverse_inj.mp before, List.reverse_inj.mp behind⟩

end Text

/-- Nothing but white space. -/
def Blank (cs : List Char) : Prop := ∀ c ∈ cs, Text.isBlank c = true

theorem Blank.nil : Blank [] := fun _ member => nomatch member

theorem Blank.append {as bs : List Char} (first : Blank as) (second : Blank bs) :
    Blank (as ++ bs) := by
  intro c member
  rcases List.mem_append.mp member with inFirst | inSecond
  · exact first c inFirst
  · exact second c inSecond

theorem Blank.not_mem {c : Char} {cs : List Char} (blank : Blank cs)
    (written : Text.isBlank c = false) : c ∉ cs := by
  intro member
  rw [blank c member] at written
  cases written

/-- The length of a text in bytes is that of its characters. -/
theorem utf8Length_toList (text : String) : utf8Length text.toList = text.utf8ByteSize := by
  have ofList (cs : List Char) : (String.ofList cs).utf8ByteSize = utf8Length cs := by
    induction cs with
    | nil => rfl
    | cons c cs ih =>
      have parts : String.ofList (c :: cs) = String.singleton c ++ String.ofList cs := by
        rw [String.singleton_eq_ofList, ← String.ofList_append, List.singleton_append]
      rw [parts, String.utf8ByteSize_append, String.utf8ByteSize_singleton, ih, utf8Length_cons]
  rw [← ofList, String.ofList_toList]

namespace Cursor

variable {cur mid next last : Cursor} {c : Char} {p : Char → Bool} {read more : List Char}

/-- From one cursor to the other, these characters are read. -/
structure Passes (cur : Cursor) (read : List Char) (next : Cursor) : Prop where
  rest : cur.rest = read ++ next.rest
  position : next.position = cur.position + utf8Length read

/-- The next character, if there is one, fails a test. -/
def Outside (cur : Cursor) (p : Char → Bool) : Prop := ∀ c ∈ cur.rest.head?, p c = false

theorem Passes.refl (cur : Cursor) : cur.Passes [] cur := ⟨rfl, rfl⟩

theorem Passes.trans (first : cur.Passes read mid) (second : mid.Passes more next) :
    cur.Passes (read ++ more) next where
  rest := by rw [first.rest, second.rest, List.append_assoc]
  position := by rw [second.position, first.position, utf8Length_append, Nat.add_assoc]

theorem Passes.unique (first : cur.Passes read next) (second : cur.Passes read last) :
    next = last := by
  have rests : next.rest = last.rest := List.append_cancel_left (first.rest.symm.trans second.rest)
  have positions : next.position = last.position := first.position.trans second.position.symm
  cases next
  cases last
  simp only at rests positions
  rw [rests, positions]

/-- What is read in one go can be read in two. -/
theorem Passes.split (whole : cur.Passes (read ++ more) next) :
    ∃ mid, cur.Passes read mid ∧ mid.Passes more next := by
  refine ⟨⟨cur.position + utf8Length read, more ++ next.rest⟩, ⟨?_, rfl⟩, ⟨rfl, ?_⟩⟩
  · rw [whole.rest, List.append_assoc]
  · rw [whole.position, utf8Length_append, Nat.add_assoc]

theorem passes_start (text : String) : (start text).Passes text.toList ⟨text.utf8ByteSize, []⟩ where
  rest := (List.append_nil _).symm
  position := by rw [utf8Length_toList, start, Nat.zero_add]

/-- A cursor whose next character is read fails the tests that the character fails. -/
theorem Passes.outside (passes : cur.Passes (c :: read) next) (fails : p c = false) :
    cur.Outside p := by
  intro d head
  rw [passes.rest] at head
  obtain rfl : c = d := Option.some.inj head
  exact fails

/-- White space fails a test that no white space passes; so does what comes after it, then. -/
theorem Passes.outside_of_blank (passes : cur.Passes read next) (blank : Blank read)
    (fails : ∀ c, Text.isBlank c = true → p c = false) (outside : next.Outside p) :
    cur.Outside p := by
  cases read with
  | nil => exact passes.unique (.refl cur) ▸ outside
  | cons c read => exact passes.outside (fails c (blank c (List.mem_cons_self ..)))

theorem dropWhile_of_outside (outside : cur.Outside p) : cur.rest.dropWhile p = cur.rest := by
  unfold Outside at outside
  cases here : cur.rest with
  | nil => rfl
  | cons c rest =>
    rw [here] at outside
    exact List.dropWhile_cons_of_neg (Bool.eq_false_iff.mp (outside c rfl))

theorem takeWhile_of_outside (outside : cur.Outside p) : cur.rest.takeWhile p = [] := by
  have parts := List.takeWhile_append_dropWhile (p := p) (l := cur.rest)
  rw [dropWhile_of_outside outside] at parts
  exact List.append_left_eq_self.mp parts

/-- The characters of a kind are read up to the first that is not of the kind. -/
theorem span_eq_iff : cur.span p = (read, next) ↔
    cur.Passes read next ∧ (∀ c ∈ read, p c = true) ∧ next.Outside p := by
  unfold span
  refine ⟨fun reads => ?_, fun ⟨passes, kind, outside⟩ => ?_⟩
  · obtain ⟨rfl, rfl⟩ := Prod.mk.inj reads
    refine ⟨⟨List.takeWhile_append_dropWhile.symm, rfl⟩, fun c => List.mem_takeWhile_imp, ?_⟩
    intro c head
    have stops := List.head?_dropWhile_not p cur.rest
    rw [Option.mem_def.mp head] at stops
    exact stops
  · have taken : cur.rest.takeWhile p = read := by
      rw [passes.rest, List.takeWhile_append_of_pos kind, takeWhile_of_outside outside,
        List.append_nil]
    have dropped : cur.rest.dropWhile p = next.rest := by
      rw [passes.rest, List.dropWhile_append_of_pos kind, dropWhile_of_outside outside]
    simp only [taken, dropped, ← passes.position]

theorem skipBlanks_eq_iff : cur.skipBlanks = next ↔
    ∃ read, cur.Passes read next ∧ Blank read ∧ next.Outside Text.isBlank := by
  refine ⟨fun skips => ⟨(cur.span Text.isBlank).1, ?_⟩, fun ⟨read, reads⟩ => ?_⟩
  · exact span_eq_iff.mp (Prod.ext rfl skips)
  · exact congrArg Prod.snd (span_eq_iff.mpr reads)

theorem exists_passes_skipBlanks (cur : Cursor) :
    ∃ read, cur.Passes read cur.skipBlanks ∧ Blank read ∧ cur.skipBlanks.Outside Text.isBlank :=
  skipBlanks_eq_iff.mp rfl

theorem skipBlanks_of_outside (outside : cur.Outside Text.isBlank) : cur.skipBlanks = cur :=
  skipBlanks_eq_iff.mpr ⟨[], .refl cur, .nil, outside⟩

theorem isEmpty_skipBlanks_iff : cur.skipBlanks.rest.isEmpty = true ↔ Blank cur.rest := by
  obtain ⟨read, passes, blank, outside⟩ := cur.exists_passes_skipBlanks
  rw [List.isEmpty_iff, passes.rest]
  refine ⟨fun nothing => ?_, fun all => ?_⟩
  · rw [nothing, List.append_nil]
    exact blank
  · cases here : cur.skipBlanks.rest with
    | nil => rfl
    | cons c rest =>
      have written : Text.isBlank c = false := outside c (by rw [here]; rfl)
      exact absurd (by rw [here]; simp) (Blank.not_mem all written)

theorem skip?_eq_some_iff : cur.skip? c = some next ↔ cur.Passes [c] next := by
  have width : utf8Length [c] = c.utf8Size := Nat.zero_add _
  unfold skip?
  split
  · next d rest here =>
    by_cases same : d = c
    · subst same
      rw [if_pos rfl]
      have passes : cur.Passes [d] ⟨cur.position + d.utf8Size, rest⟩ := ⟨here, by rw [width]⟩
      refine ⟨fun skips => ?_, fun reads => ?_⟩
      · exact Option.some.inj skips ▸ passes
      · exact congrArg some (passes.unique reads)
    · rw [if_neg same]
      refine ⟨nofun, fun reads => absurd ?_ same⟩
      exact (List.cons.inj (here.symm.trans reads.rest)).1
  · next here => exact ⟨nofun, fun reads => nomatch here.symm.trans reads.rest⟩

theorem skip?_eq_none_iff : cur.skip? c = none ↔ cur.rest.head? ≠ some c := by
  unfold skip?
  split
  · next d rest here =>
    rw [here, List.head?_cons, ne_eq, Option.some.injEq]
    by_cases same : d = c <;> simp [same]
  · next here => simp [here]

/-- A character that passes a test is not next where the next one fails the test. -/
theorem skip?_of_outside (outside : cur.Outside p) (passes : p c = true) : cur.skip? c = none :=
  skip?_eq_none_iff.mpr fun next => nomatch passes.symm.trans (outside c next)

/-- The same cursor in a text with more bytes in front. -/
def later (n : Nat) (cur : Cursor) : Cursor := ⟨cur.position + n, cur.rest⟩

variable {n : Nat}

theorem span_later : (cur.later n).span p = ((cur.span p).1, (cur.span p).2.later n) := by
  simp only [span, later, Nat.add_right_comm]

theorem skipBlanks_later : (cur.later n).skipBlanks = cur.skipBlanks.later n :=
  congrArg Prod.snd span_later

theorem skip?_later : (cur.later n).skip? c = (cur.skip? c).map (later n) := by
  unfold skip? later
  cases cur.rest with
  | nil => rfl
  | cons d rest =>
    dsimp only
    split
    · rw [Nat.add_right_comm]
      rfl
    · rfl

theorem skip?_skipBlanks_later :
    (cur.later n).skipBlanks.skip? c = (cur.skipBlanks.skip? c).map (later n) := by
  rw [skipBlanks_later, skip?_later]

end Cursor

end MutantSieve
