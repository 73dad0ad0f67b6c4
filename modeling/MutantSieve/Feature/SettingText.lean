import MutantSieve.Feature.Setting
import MutantSieve.Text.Alphanumeric
import MutantSieve.Text.Cursor

namespace MutantSieve

/-- What is wrong with the text of a setting. -/
inductive SettingFault where
  | missingSign
  | missingIdentifier
  | missingBracket
  | unterminatedValue
  | unexpectedInput
deriving DecidableEq

/-- A fault, and how many bytes of the text are before it. -/
structure SettingError where
  fault : SettingFault
  position : Nat
deriving DecidableEq

/-- The text of a fault. -/
def SettingFault.message : SettingFault → String
  | missingSign => "Expected '+' or '-' before feature name"
  | missingIdentifier => "Expected identifier"
  | missingBracket => "Expected '['"
  | unterminatedValue => "Unterminated parameter value"
  | unexpectedInput => "Unexpected input"

/-- The text of an error. -/
def SettingError.message (e : SettingError) : String :=
  "Feature parse error: " ++ e.fault.message ++ " at position " ++ toString e.position

/-- The sign of a status. -/
def ToggleStatus.symbol : ToggleStatus → Char
  | activate => '+'
  | deactivate => '-'

/-- The characters that names are made of. -/
def isIdentifierChar (c : Char) : Bool := Text.isAlphanumeric c || c = '_' || c = '.'

namespace Cursor

/-- An error at the cursor. -/
def fail {α : Type} (cur : Cursor) (fault : SettingFault) : Except SettingError α :=
  .error ⟨fault, cur.position⟩

/-- Reads a name, after white space. -/
def identifier (cur : Cursor) : Except SettingError (String × Cursor) :=
  let (name, next) := cur.skipBlanks.span isIdentifierChar
  if name.isEmpty then next.fail .missingIdentifier else .ok (String.ofList name, next)

/-- Reads a parameter and its value, which is everything up to the closing bracket. -/
def parameter (cur : Cursor) : Except SettingError ((String × String) × Cursor) :=
  match cur.identifier with
  | .error e => .error e
  | .ok (name, next) =>
    match next.skipBlanks.skip? '[' with
    | none => next.skipBlanks.fail .missingBracket
    | some opened =>
      let (value, next) := opened.span (· ≠ ']')
      match next.skip? ']' with
      | none => opened.fail .unterminatedValue
      | some closed => .ok ((name, String.ofList value), closed)

theorem identifier_eq_ok_iff {cur next : Cursor} {name : String} :
    cur.identifier = .ok (name, next) ↔
      cur.skipBlanks.span isIdentifierChar = (name.toList, next) ∧ name.toList ≠ [] := by
  unfold identifier
  obtain ⟨chars, after⟩ := cur.skipBlanks.span isIdentifierChar
  by_cases empty : chars = []
  · subst empty
    refine ⟨nofun, fun ⟨same, nonempty⟩ => absurd ?_ nonempty⟩
    exact (Prod.mk.inj same).1.symm
  · simp only [mt List.isEmpty_iff.mp empty, Bool.false_eq_true, if_false]
    refine ⟨fun read => ?_, fun ⟨same, _⟩ => ?_⟩
    · obtain ⟨rfl, rfl⟩ := Prod.mk.inj (Except.ok.inj read)
      rw [String.toList_ofList]
      exact ⟨rfl, empty⟩
    · obtain ⟨rfl, rfl⟩ := Prod.mk.inj same
      rw [String.ofList_toList]

theorem parameter_eq_ok_iff {cur next : Cursor} {name value : String} :
    cur.parameter = .ok ((name, value), next) ↔
      ∃ named opened valued, cur.identifier = .ok (name, named) ∧
        named.skipBlanks.skip? '[' = some opened ∧
        opened.span (· ≠ ']') = (value.toList, valued) ∧ valued.skip? ']' = some next := by
  unfold parameter
  refine ⟨fun read => ?_, fun ⟨named, opened, valued, nameRead, opening, spanned, closing⟩ => ?_⟩
  · split at read
    · cases read
    · next named nameRead =>
      split at read
      · cases read
      · next opened opening =>
        dsimp only at read
        split at read
        · cases read
        · next closing =>
          obtain ⟨same, rfl⟩ := Prod.mk.inj (Except.ok.inj read)
          obtain ⟨rfl, rfl⟩ := Prod.mk.inj same
          refine ⟨named, opened, _, nameRead, opening, ?_, closing⟩
          rw [String.toList_ofList]
  · simp only [nameRead, opening, spanned, closing, String.ofList_toList]

theorem identifier_rest_length {cur next : Cursor} {name : String}
    (read : cur.identifier = .ok (name, next)) : next.rest.length < cur.rest.length := by
  obtain ⟨spanned, nonempty⟩ := identifier_eq_ok_iff.mp read
  have blanks := cur.skipBlanks_rest_length
  have parts := cur.skipBlanks.span_rest_length isIdentifierChar
  have := List.length_pos_iff.mpr nonempty
  rw [spanned] at parts
  dsimp only at parts
  omega

theorem parameter_rest_length {cur next : Cursor} {entry : String × String}
    (read : cur.parameter = .ok (entry, next)) : next.rest.length < cur.rest.length := by
  obtain ⟨named, opened, valued, nameRead, opening, spanned, closing⟩ :=
    parameter_eq_ok_iff.mp read
  have := identifier_rest_length nameRead
  have := named.skipBlanks_rest_length
  have := skip?_rest_length opening
  have parts := opened.span_rest_length (· ≠ ']')
  have := skip?_rest_length closing
  rw [spanned] at parts
  dsimp only at parts
  omega

/-- Reads parameters up to the closing parenthesis, given those before them. -/
def parameters (cur : Cursor) (read : Array (String × String)) :
    Except SettingError (Parameters × Cursor) :=
  match cur.skipBlanks.skip? ')' with
  | some closed => .ok (.ofEntries read.toList, closed)
  | none =>
    match _read : cur.skipBlanks.parameter with
    | .error e => .error e
    | .ok (entry, next) => next.parameters (read.push entry)
termination_by cur.rest.length
decreasing_by
  have := parameter_rest_length _read
  have := cur.skipBlanks_rest_length
  omega

section
variable {cur next closed : Cursor} {before : Array (String × String)}

theorem parameters_of_closed (closing : cur.skipBlanks.skip? ')' = some closed) :
    cur.parameters before = .ok (.ofEntries before.toList, closed) := by
  rw [parameters, closing]

theorem parameters_of_error {e : SettingError} (notClosed : cur.skipBlanks.skip? ')' = none)
    (failed : cur.skipBlanks.parameter = .error e) : cur.parameters before = .error e := by
  rw [parameters, notClosed]
  dsimp only
  split
  · next failed' => rw [Except.error.inj (failed'.symm.trans failed)]
  · next read => exact nomatch failed.symm.trans read

theorem parameters_of_parameter {entry : String × String}
    (notClosed : cur.skipBlanks.skip? ')' = none)
    (read : cur.skipBlanks.parameter = .ok (entry, next)) :
    cur.parameters before = next.parameters (before.push entry) := by
  rw [parameters, notClosed]
  dsimp only
  split
  · next failed => exact nomatch read.symm.trans failed
  · next read' =>
    obtain ⟨rfl, rfl⟩ := Prod.mk.inj (Except.ok.inj (read.symm.trans read'))
    rfl

end

/-- Reads the sign of a setting, after white space. An error is placed behind the character that is
no sign. -/
def sign (cur : Cursor) : Except SettingError (ToggleStatus × Cursor) :=
  let cur := cur.skipBlanks
  match cur.rest with
  | [] => cur.fail .missingSign
  | c :: rest =>
    let next : Cursor := ⟨cur.position + c.utf8Size, rest⟩
    if c = '+' then .ok (.activate, next)
    else if c = '-' then .ok (.deactivate, next)
    else next.fail .missingSign

theorem sign_eq_ok_iff {cur next : Cursor} {status : ToggleStatus} :
    cur.sign = .ok (status, next) ↔ cur.skipBlanks.skip? status.symbol = some next := by
  unfold sign skip?
  dsimp only
  cases cur.skipBlanks.rest with
  | nil => exact ⟨nofun, nofun⟩
  | cons c rest =>
    by_cases plus : c = '+'
    · subst plus
      cases status <;> simp [ToggleStatus.symbol]
    · by_cases minus : c = '-'
      · subst minus
        cases status <;> simp [ToggleStatus.symbol]
      · cases status <;> simp [ToggleStatus.symbol, plus, minus, fail]

/-- Reads a setting and the white space behind its name. -/
def setting (cur : Cursor) : Except SettingError (FeatureSetting × Cursor) :=
  match cur.sign with
  | .error e => .error e
  | .ok (status, signed) =>
    match signed.identifier with
    | .error e => .error e
    | .ok (feature, named) =>
      match named.skipBlanks.skip? '(' with
      | none => .ok (⟨feature, status, ∅⟩, named.skipBlanks)
      | some opened =>
        match opened.parameters #[] with
        | .error e => .error e
        | .ok (parameters, closed) => .ok (⟨feature, status, parameters⟩, closed)

theorem sign_rest_length {cur next : Cursor} {status : ToggleStatus}
    (read : cur.sign = .ok (status, next)) : next.rest.length < cur.rest.length := by
  have := cur.skipBlanks_rest_length
  have := skip?_rest_length (sign_eq_ok_iff.mp read)
  omega

theorem parameters_rest_length {cur next : Cursor} {before : Array (String × String)}
    {after : Parameters} (read : cur.parameters before = .ok (after, next)) :
    next.rest.length < cur.rest.length := by
  revert read
  fun_induction parameters cur before with
  | case1 cur before closed closing =>
    intro read
    have := cur.skipBlanks_rest_length
    have := skip?_rest_length closing
    cases read
    omega
  | case2 => exact fun read => nomatch read
  | case3 cur before notClosed entry after parsed ih =>
    intro read
    have := cur.skipBlanks_rest_length
    have := parameter_rest_length parsed
    have := ih read
    omega

theorem setting_eq_ok_iff {cur next : Cursor} {s : FeatureSetting} :
    cur.setting = .ok (s, next) ↔
      ∃ signed named, cur.sign = .ok (s.status, signed) ∧
        signed.identifier = .ok (s.feature, named) ∧
        ((named.skipBlanks.skip? '(' = none ∧ s.parameters = ∅ ∧ next = named.skipBlanks) ∨
          ∃ opened, named.skipBlanks.skip? '(' = some opened ∧
            opened.parameters #[] = .ok (s.parameters, next)) := by
  unfold setting
  refine ⟨fun read => ?_, fun ⟨signed, named, signRead, nameRead, behind⟩ => ?_⟩
  · split at read
    · cases read
    · next signed signRead =>
      split at read
      · cases read
      · next named nameRead =>
        split at read
        · next notOpened =>
          obtain ⟨rfl, rfl⟩ := Prod.mk.inj (Except.ok.inj read)
          exact ⟨signed, named, signRead, nameRead, .inl ⟨notOpened, rfl, rfl⟩⟩
        · next opened opening =>
          split at read
          · cases read
          · next parametersRead =>
            obtain ⟨rfl, rfl⟩ := Prod.mk.inj (Except.ok.inj read)
            exact ⟨signed, named, signRead, nameRead, .inr ⟨opened, opening, parametersRead⟩⟩
  · obtain ⟨feature, status, parameters⟩ := s
    obtain ⟨notOpened, rfl, rfl⟩ | ⟨opened, opening, parametersRead⟩ := behind
    · simp only [signRead, nameRead, notOpened]
    · simp only [signRead, nameRead, opening, parametersRead]

theorem setting_rest_length {cur next : Cursor} {s : FeatureSetting}
    (read : cur.setting = .ok (s, next)) : next.rest.length < cur.rest.length := by
  obtain ⟨signed, named, signRead, nameRead, behind⟩ := setting_eq_ok_iff.mp read
  have := sign_rest_length signRead
  have := identifier_rest_length nameRead
  have := named.skipBlanks_rest_length
  obtain ⟨-, -, rfl⟩ | ⟨opened, opening, parametersRead⟩ := behind
  · omega
  · have := skip?_rest_length opening
    have := parameters_rest_length parametersRead
    omega

/-- Accepts the end of the text, after white space. -/
def atEnd (cur : Cursor) : Except SettingError Unit :=
  if cur.skipBlanks.rest.isEmpty then .ok () else cur.skipBlanks.fail .unexpectedInput

/-- Reads settings up to the end of the text. -/
def settings (cur : Cursor) : Except SettingError (List FeatureSetting) :=
  match _read : cur.setting with
  | .error e => .error e
  | .ok (setting, next) =>
    match _comma : next.skipBlanks.skip? ',' with
    | some separated => separated.settings.map (setting :: ·)
    | none => next.atEnd.map fun _ => [setting]
termination_by cur.rest.length
decreasing_by
  have := setting_rest_length _read
  have := next.skipBlanks_rest_length
  have := skip?_rest_length _comma
  omega

section
variable {cur next separated : Cursor} {s : FeatureSetting}

theorem settings_of_error {e : SettingError} (failed : cur.setting = .error e) :
    cur.settings = .error e := by
  rw [settings]
  split
  · next failed' => rw [Except.error.inj (failed'.symm.trans failed)]
  · next read => exact nomatch failed.symm.trans read

theorem settings_of_comma (read : cur.setting = .ok (s, next))
    (comma : next.skipBlanks.skip? ',' = some separated) :
    cur.settings = separated.settings.map (s :: ·) := by
  rw [settings]
  split
  · next failed => exact nomatch read.symm.trans failed
  · next read' =>
    obtain ⟨rfl, rfl⟩ := Prod.mk.inj (Except.ok.inj (read.symm.trans read'))
    split
    · next comma' =>
      obtain rfl := Option.some.inj (comma.symm.trans comma')
      rfl
    · next none => exact nomatch comma.symm.trans none

theorem settings_of_last (read : cur.setting = .ok (s, next))
    (last : next.skipBlanks.skip? ',' = none) :
    cur.settings = next.atEnd.map fun _ => [s] := by
  rw [settings]
  split
  · next failed => exact nomatch read.symm.trans failed
  · next read' =>
    obtain ⟨rfl, rfl⟩ := Prod.mk.inj (Except.ok.inj (read.symm.trans read'))
    split
    · next comma => exact nomatch last.symm.trans comma
    · rfl

end

end Cursor

namespace FeatureSetting

/-- Reads the text of one setting. -/
def parse (text : String) : Except SettingError FeatureSetting :=
  match (Cursor.start text).setting with
  | .error e => .error e
  | .ok (setting, next) => next.atEnd.map fun _ => setting

/-- Reads the text of any number of settings, separated by commas. -/
def parseAll (text : String) : Except SettingError (List FeatureSetting) :=
  if (Cursor.start text).skipBlanks.rest.isEmpty then .ok [] else (Cursor.start text).settings

end FeatureSetting

end MutantSieve
