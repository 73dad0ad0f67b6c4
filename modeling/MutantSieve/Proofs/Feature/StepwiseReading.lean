import MutantSieve.Feature.SettingText
import MutantSieve.Proofs.Text.Offset

namespace MutantSieve

namespace SettingReader

/-- What a name is read for. -/
inductive NameOf
  | feature
  | parameter
deriving DecidableEq

/-- What is expected behind white space. -/
inductive Expected
  | beginning
  | sign
  | name (of : NameOf)
  | opening
  | closing
  | bracket
  | separator
  | ending
deriving DecidableEq

/-- The places of the reader. There are five loops: over white space in front of something expected,
over settings, over the letters of a name, over parameters and over the characters of a value. -/
inductive Place
  | blanks (before : Expected)
  | here (expected : Expected)
  | settings
  | unsigned
  | letters (of : NameOf)
  | parameters
  | value
deriving DecidableEq

end SettingReader

/-- A reader: its place, its byte offset, an offset to keep in mind (where the letters of a name end
so far, or where a value begins) and what it has read. -/
structure SettingReader where
  place : SettingReader.Place
  position : Nat
  mark : Nat
  status : ToggleStatus
  feature : String
  name : String
  entries : Array (String × String)
  settings : Array FeatureSetting
deriving DecidableEq

namespace SettingReader

/-- What a step comes to. -/
inductive Turn
  | on (next : SettingReader)
  | ends (result : Except SettingError (List FeatureSetting))
deriving DecidableEq

/-- An error at the position. -/
def fail (r : SettingReader) (fault : SettingFault) : Turn := .ends (.error ⟨fault, r.position⟩)

/-- The same reader at another place. -/
@[simp]
def goTo (r : SettingReader) (place : Place) : SettingReader := { r with place }

/-- Moves on by some bytes. -/
@[simp]
def move (r : SettingReader) (bytes : Nat) : SettingReader :=
  { r with position := r.position + bytes }

/-- Moves to the end of a name that has been read. -/
@[simp]
def take (r : SettingReader) (name : String) : NameOf → SettingReader
  | .feature => { r with position := r.mark, feature := name, place := .blanks .opening }
  | .parameter => { r with position := r.mark, name, place := .blanks .bracket }

/-- Has read a setting with these parameters, one of many or the only one. -/
@[simp]
def complete (r : SettingReader) (many : Bool) (parameters : Parameters) : SettingReader :=
  { r with
    settings := r.settings.push ⟨r.feature, r.status, parameters⟩
    place := .blanks (if many then .separator else .ending) }

section
variable (text : String) (many : Bool)

/-- The character at a byte offset, if there is one. -/
def peek? (offset : Nat) : Option (Option Char) := (Text.suffix? text offset).map List.head?

/-- Moves behind a literal if it comes next. -/
def consume? (r : SettingReader) (literal : String) : Option (Option SettingReader) :=
  (Text.suffix? text r.position).map fun rest =>
    if literal.toList.isPrefixOf rest then some (r.move literal.utf8ByteSize) else none

/-- Ends the letters of a name. -/
def endName (r : SettingReader) (of : NameOf) : Option Turn :=
  if r.position < r.mark then do
    return .on (r.take (← Text.between? text r.position r.mark) of)
  else return r.fail .missingIdentifier

/-- A step at something expected. -/
def expect (r : SettingReader) : Expected → Option Turn
  | .beginning => do
    match ← peek? text r.position with
    | none => return .ends (.ok [])
    | some _ => return .on (r.goTo .settings)
  | .sign => do
    match ← peek? text r.position with
    | none => return r.fail .missingSign
    | some c =>
      let behind := r.move c.utf8Size
      if c = '+' then
        return .on { behind with status := .activate, place := .blanks (.name .feature) }
      else if c = '-' then
        return .on { behind with status := .deactivate, place := .blanks (.name .feature) }
      else return .on (behind.goTo .unsigned)
  | .name of => do
    let _ ← Text.suffix? text r.position
    return .on { r with mark := r.position, place := .letters of }
  | .opening => do
    match ← r.consume? text "(" with
    | none => return .on (r.complete many ∅)
    | some opened => return .on { opened with entries := #[], place := .parameters }
  | .closing => do
    match ← r.consume? text ")" with
    | none => return .on (r.goTo (.blanks (.name .parameter)))
    | some closed => return .on (closed.complete many (.ofEntries r.entries.toList))
  | .bracket => do
    match ← r.consume? text "[" with
    | none => return r.fail .missingBracket
    | some opened => return .on { opened with mark := opened.position, place := .value }
  | .separator => do
    match ← r.consume? text "," with
    | none => return .on (r.goTo (.here .ending))
    | some separated => return .on (separated.goTo .settings)
  | .ending =>
    if r.position < text.utf8ByteSize then return r.fail .unexpectedInput
    else return .ends (.ok r.settings.toList)

/-- One step. It is stuck if a part of the text is asked for that does not begin and end between
two characters. -/
def step (r : SettingReader) : Option Turn :=
  match r.place with
  | .blanks before => do
    match ← peek? text r.position with
    | none => return .on (r.goTo (.here before))
    | some c => return .on (if Text.isBlank c then r.move c.utf8Size else r.goTo (.here before))
  | .here expected => r.expect text many expected
  | .settings => return .on (r.goTo (.blanks .sign))
  | .unsigned => return r.fail .missingSign
  | .letters of => do
    match ← peek? text r.mark with
    | none => r.endName text of
    | some c =>
      if isIdentifierChar c then return .on { r with mark := r.mark + c.utf8Size }
      else r.endName text of
  | .parameters => return .on (r.goTo (.blanks .closing))
  | .value => do
    match ← peek? text r.position with
    | none => return .ends (.error ⟨.unterminatedValue, r.mark⟩)
    | some c =>
      if c = ']' then
        let value ← Text.between? text r.mark r.position
        return .on { r.move c.utf8Size with
          entries := r.entries.push (r.name, value), place := .parameters }
      else return .on (r.move c.utf8Size)

/-- The reader at the start of a text of many settings or of one. -/
def initial : SettingReader where
  place := .blanks (if many then .beginning else .sign)
  position := 0
  mark := 0
  status := .activate
  feature := ""
  name := ""
  entries := #[]
  settings := #[]

/-- What a number of steps comes to. -/
def run (r : SettingReader) : Nat → Option Turn
  | 0 => some (.on r)
  | n + 1 => do
    match ← r.step text many with
    | .on next => next.run n
    | .ends result => return .ends result

end

/-- How far the reader has looked: up to its position, but in a name up to the end of its letters so
far. -/
def reach (r : SettingReader) : Nat :=
  match r.place with
  | .letters _ => r.mark
  | _ => r.position

/-- Bounds the number of steps before the reader looks further. -/
@[simp]
def Expected.rank : Expected → Nat
  | .sign | .bracket | .ending => 0
  | .separator => 1
  | .beginning | .opening => 3
  | .name _ => 6
  | .closing => 8

@[simp, inherit_doc Expected.rank]
def Place.rank : Place → Nat
  | .here expected => expected.rank
  | .blanks before => before.rank + 1
  | .unsigned | .value => 0
  | .settings => 2
  | .letters _ => 5
  | .parameters => 10

/-- Whether the mark is of account at a place. -/
def Place.usesMark : Place → Bool
  | .letters _ | .value => true
  | _ => false

theorem Expected.rank_le (expected : Expected) : expected.rank ≤ 8 := by
  cases expected <;> simp

theorem Place.rank_le (place : Place) : place.rank ≤ 10 := by
  cases place with
  | blanks before =>
    have := before.rank_le
    simp only [rank]
    omega
  | here expected =>
    have := expected.rank_le
    simp only [rank]
    omega
  | settings => simp
  | unsigned => simp
  | letters of => simp
  | parameters => simp
  | value => simp

/-- Looks further, or looks as far at a place of lower rank. -/
def Advances (r next : SettingReader) : Prop :=
  r.reach < next.reach ∨ r.reach = next.reach ∧ next.place.rank < r.place.rank

/-- The offsets of the reader are boundaries of the text, and in order. -/
structure Sound (text : String) (r : SettingReader) : Prop where
  position : Text.IsBoundary text r.position
  mark : Text.IsBoundary text r.mark
  letters : ∀ of, r.place = .letters of → r.position ≤ r.mark
  value : r.place = .value → r.mark ≤ r.position

/-- What is so of a reader and a later one. -/
structure Follows (text : String) (r next : SettingReader) : Prop where
  sound : next.Sound text
  position_le : r.position ≤ next.position
  advances : r.Advances next

/-- A turn that is not stuck, and after which the reader follows if it goes on. -/
def Legal (text : String) (r : SettingReader) : Option Turn → Prop
  | none => False
  | some (.on next) => Follows text r next
  | some (.ends _) => True

section
variable {text : String} {many : Bool} {r next : SettingReader}

theorem reach_of_not_letters (other : ∀ of, r.place ≠ .letters of) : r.reach = r.position := by
  unfold reach
  split
  · next of letters => exact absurd letters (other of)
  · rfl

theorem reach_of_plain (plain : r.place.usesMark = false) : r.reach = r.position := by
  refine reach_of_not_letters fun of letters => ?_
  rw [letters] at plain
  cases plain

theorem sound_of_plain (position : Text.IsBoundary text r.position)
    (mark : Text.IsBoundary text r.mark) (plain : r.place.usesMark = false) : r.Sound text := by
  refine ⟨position, mark, fun of letters => ?_, fun value => ?_⟩
  · rw [letters] at plain
    cases plain
  · rw [value] at plain
    cases plain

theorem sound_initial : (initial many).Sound text :=
  sound_of_plain Text.isBoundary_zero Text.isBoundary_zero rfl

/-- The reader goes to another place and stays where it is. -/
theorem Sound.stays (sound : r.Sound text) (looked : r.reach = r.position)
    (position : next.position = r.position) (mark : next.mark = r.mark)
    (plain : next.place.usesMark = false) (lower : next.place.rank < r.place.rank) :
    Follows text r next where
  sound := sound_of_plain (position ▸ sound.position) (mark ▸ sound.mark) plain
  position_le := position.ge
  advances := .inr ⟨by rw [looked, reach_of_plain plain, position], lower⟩

/-- The reader goes to another place and moves on. -/
theorem Sound.moves (sound : r.Sound text) (looked : r.reach = r.position)
    (further : r.position < next.position) (behind : Text.IsBoundary text next.position)
    (mark : next.mark = r.mark) (plain : next.place.usesMark = false) : Follows text r next where
  sound := sound_of_plain behind (mark ▸ sound.mark) plain
  position_le := further.le
  advances := .inl (by rwa [looked, reach_of_plain plain])

/-- The reader goes round a loop. -/
theorem Sound.moves_round (sound : r.Sound text) (other : ∀ of, r.place ≠ .letters of)
    {bytes : Nat} (some : 0 < bytes) (behind : Text.IsBoundary text (r.position + bytes)) :
    Follows text r (r.move bytes) := by
  have further : r.position < (r.move bytes).position := Nat.lt_add_of_pos_right some
  have moved : (r.move bytes).reach = (r.move bytes).position := reach_of_not_letters other
  refine ⟨⟨behind, sound.mark, fun of letters => ?_, fun value => ?_⟩, further.le, .inl ?_⟩
  · exact absurd letters (other of)
  · exact (sound.value value).trans further.le
  · rwa [reach_of_not_letters other, moved]

theorem legal_peek {offset : Nat} {turn : Option Char → Option Turn}
    (boundary : Text.IsBoundary text offset) (atEnd : r.Legal text (turn none))
    (before : ∀ c, Text.IsBoundary text (offset + c.utf8Size) → offset < offset + c.utf8Size →
      r.Legal text (turn (some c))) :
    r.Legal text (peek? text offset >>= turn) := by
  obtain ⟨rest, suffix⟩ := Text.isBoundary_iff_suffix?.mp boundary
  have peeked : peek? text offset = some rest.head? := by rw [peek?, suffix, Option.map_some]
  rw [peeked]
  cases rest with
  | nil => exact atEnd
  | cons c rest =>
    have passes : Cursor.Passes ⟨offset, c :: rest⟩ [c] ⟨offset + c.utf8Size, rest⟩ :=
      ⟨rfl, by simp [utf8Length]⟩
    have behind := passes.standsIn (Cursor.standsIn_of_suffix? suffix)
    exact before c behind.isBoundary (Nat.lt_add_of_pos_right c.utf8Size_pos)

theorem legal_consume {literal : String} {turn : Option SettingReader → Option Turn}
    (sound : r.Sound text) (missing : r.Legal text (turn none))
    (behind : Text.IsBoundary text (r.position + literal.utf8ByteSize) →
      r.Legal text (turn (some (r.move literal.utf8ByteSize)))) :
    r.Legal text (r.consume? text literal >>= turn) := by
  obtain ⟨rest, suffix⟩ := Text.isBoundary_iff_suffix?.mp sound.position
  rw [consume?, suffix, Option.map_some]
  split
  · next begins =>
    obtain ⟨more, rfl⟩ := List.isPrefixOf_iff_prefix.mp begins
    have passes : Cursor.Passes ⟨r.position, literal.toList ++ more⟩ literal.toList
        ⟨r.position + literal.utf8ByteSize, more⟩ := ⟨rfl, by rw [utf8Length_toList]⟩
    exact behind (passes.standsIn (Cursor.standsIn_of_suffix? suffix)).isBoundary
  · exact missing

theorem legal_endName (sound : r.Sound text) {of : NameOf} (letters : r.place = .letters of) :
    r.Legal text (r.endName text of) := by
  have looked : r.reach = r.mark := by rw [reach, letters]
  unfold endName
  split
  · next some =>
    obtain ⟨name, named⟩ := Text.exists_between? sound.position sound.mark some.le
    rw [named]
    cases of with
    | feature =>
      exact ⟨sound_of_plain sound.mark sound.mark rfl, some.le, .inr ⟨looked, by simp [letters]⟩⟩
    | parameter =>
      exact ⟨sound_of_plain sound.mark sound.mark rfl, some.le, .inr ⟨looked, by simp [letters]⟩⟩
  · trivial

/-- A step at something expected is not stuck. -/
theorem Sound.expect (sound : r.Sound text) {expected : Expected}
    (here : r.place = .here expected) : r.Legal text (r.expect text many expected) := by
  have looked : r.reach = r.position := by rw [reach, here]
  have single : r.position < r.position + 1 := Nat.lt_succ_self _
  cases expected with
  | beginning =>
    refine legal_peek sound.position trivial fun c _ _ => ?_
    exact sound.stays looked rfl rfl rfl (by simp [here])
  | sign =>
    refine legal_peek sound.position trivial fun c behind further => ?_
    dsimp only
    split
    · exact sound.moves looked further behind rfl rfl
    · split
      · exact sound.moves looked further behind rfl rfl
      · exact sound.moves looked further behind rfl rfl
  | name of =>
    obtain ⟨rest, suffix⟩ := Text.isBoundary_iff_suffix?.mp sound.position
    unfold SettingReader.expect
    rw [suffix]
    refine ⟨⟨sound.position, sound.position, fun _ _ => le_rfl, fun value => ?_⟩, le_rfl,
      .inr ⟨looked, by simp [here]⟩⟩
    cases value
  | opening =>
    refine legal_consume sound ?_ fun behind => ?_
    · exact sound.stays looked rfl rfl rfl (by cases many <;> simp [here])
    · exact sound.moves looked single behind rfl rfl
  | closing =>
    refine legal_consume sound ?_ fun behind => ?_
    · exact sound.stays looked rfl rfl rfl (by simp [here])
    · exact sound.moves looked single behind rfl rfl
  | bracket =>
    refine legal_consume sound trivial fun behind => ?_
    refine ⟨⟨behind, behind, fun of letters => ?_, fun _ => le_rfl⟩, single.le, .inl ?_⟩
    · cases letters
    · exact looked ▸ single
  | separator =>
    refine legal_consume sound ?_ fun behind => ?_
    · exact sound.stays looked rfl rfl rfl (by simp [here])
    · exact sound.moves looked single behind rfl rfl
  | ending =>
    dsimp only [SettingReader.expect]
    split
    · trivial
    · trivial

/-- No step is stuck, and a reader that goes on follows the one before. -/
theorem Sound.step (sound : r.Sound text) (many : Bool) : r.Legal text (r.step text many) := by
  unfold SettingReader.step
  split
  · next before place =>
    have looked : r.reach = r.position := by rw [reach, place]
    have other (of : NameOf) (letters : r.place = .letters of) : False := by
      cases place.symm.trans letters
    have stays : Follows text r (r.goTo (.here before)) :=
      sound.stays looked rfl rfl rfl (by simp [place])
    refine legal_peek sound.position stays fun c behind _ => ?_
    dsimp only
    split
    · exact sound.moves_round other c.utf8Size_pos behind
    · exact stays
  · next expected here => exact sound.expect here
  · next place =>
    have looked : r.reach = r.position := by rw [reach, place]
    exact sound.stays looked rfl rfl rfl (by simp [place])
  · trivial
  · next of place =>
    have looked : r.reach = r.mark := by rw [reach, place]
    refine legal_peek sound.mark (legal_endName sound place) fun c behind further => ?_
    dsimp only
    split
    · have moved : { r with mark := r.mark + c.utf8Size }.reach = r.mark + c.utf8Size := by
        rw [reach, place]
      refine ⟨⟨sound.position, behind, fun of letters => ?_, fun value => ?_⟩, le_rfl, .inl ?_⟩
      · exact (sound.letters of letters).trans further.le
      · cases place.symm.trans value
      · rwa [looked, moved]
    · exact legal_endName sound place
  · next place =>
    have looked : r.reach = r.position := by rw [reach, place]
    exact sound.stays looked rfl rfl rfl (by simp [place])
  · next place =>
    have looked : r.reach = r.position := by rw [reach, place]
    have other (of : NameOf) (letters : r.place = .letters of) : False := by
      cases place.symm.trans letters
    refine legal_peek sound.position trivial fun c behind further => ?_
    dsimp only
    split
    · obtain ⟨value, between⟩ :=
        Text.exists_between? sound.mark sound.position (sound.value place)
      rw [between]
      exact sound.moves looked further behind rfl rfl
    · exact sound.moves_round other c.utf8Size_pos behind

theorem Advances.trans {last : SettingReader} (first : r.Advances next)
    (second : next.Advances last) : r.Advances last := by
  unfold Advances at *
  omega

/-- A reader that comes to a place again has looked further. -/
theorem Advances.reach_lt (advances : r.Advances next) (again : r.place = next.place) :
    r.reach < next.reach := by
  unfold Advances at advances
  rw [again] at advances
  omega

theorem Follows.trans {last : SettingReader} (first : Follows text r next)
    (second : Follows text next last) : Follows text r last where
  sound := second.sound
  position_le := first.position_le.trans second.position_le
  advances := first.advances.trans second.advances

theorem Sound.step_isSome (sound : r.Sound text) (many : Bool) :
    (r.step text many).isSome = true := by
  have legal := sound.step many
  cases step : r.step text many with
  | none =>
    rw [step] at legal
    exact legal.elim
  | some turn => rfl

theorem Sound.follows_step (sound : r.Sound text) (step : r.step text many = some (.on next)) :
    Follows text r next := by
  have legal := sound.step many
  rw [step] at legal
  exact legal

theorem run_succ_eq_on_iff {n : Nat} : r.run text many (n + 1) = some (.on next) ↔
    ∃ between, r.step text many = some (.on between) ∧
      between.run text many n = some (.on next) := by
  rw [run]
  cases r.step text many with
  | none => simp
  | some turn => cases turn <;> simp

/-- After one or more steps the reader follows the one that it was. -/
theorem Sound.follows_run (sound : r.Sound text) {n : Nat}
    (run : r.run text many (n + 1) = some (.on next)) : Follows text r next := by
  induction n generalizing r with
  | zero =>
    obtain ⟨_, step, same⟩ := run_succ_eq_on_iff.mp run
    obtain rfl := Turn.on.inj (Option.some.inj same)
    exact sound.follows_step step
  | succ n ih =>
    obtain ⟨_, step, more⟩ := run_succ_eq_on_iff.mp run
    have first := sound.follows_step step
    exact first.trans (ih first.sound more)

theorem Sound.run (sound : r.Sound text) {n : Nat} (run : r.run text many n = some (.on next)) :
    next.Sound text := by
  cases n with
  | zero =>
    obtain rfl := Turn.on.inj (Option.some.inj run)
    exact sound
  | succ n => exact (sound.follows_run run).sound

theorem Sound.reach_le (sound : r.Sound text) : r.reach ≤ text.utf8ByteSize := by
  unfold reach
  split
  · exact sound.mark.le
  · exact sound.position.le

/-- Bounds the number of steps that are left. -/
def budget (text : String) (r : SettingReader) : Nat :=
  11 * (text.utf8ByteSize - r.reach) + r.place.rank

theorem Follows.budget_lt (follows : Follows text r next) : next.budget text < r.budget text := by
  have := follows.sound.reach_le
  have := next.place.rank_le
  have advances := follows.advances
  unfold Advances at advances
  unfold budget
  omega

/-- Reading ends within its budget. -/
theorem Sound.run_ends (sound : r.Sound text) {n : Nat} (enough : r.budget text < n) :
    ∃ result, r.run text many n = some (.ends result) := by
  induction n generalizing r with
  | zero => omega
  | succ n ih =>
    obtain ⟨turn, step⟩ := Option.isSome_iff_exists.mp (sound.step_isSome many)
    rw [SettingReader.run, step]
    cases turn with
    | on next =>
      have follows := sound.follows_step step
      have := follows.budget_lt
      exact ih follows.sound (by omega)
    | ends result => exact ⟨result, rfl⟩

end

end SettingReader

end MutantSieve
