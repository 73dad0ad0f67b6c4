import MutantSieve.Proofs.Feature.SettingGrammar

namespace MutantSieve

/-- The same error in a text with more bytes in front. -/
def SettingError.later (n : Nat) (e : SettingError) : SettingError := ⟨e.fault, e.position + n⟩

namespace Cursor

variable {cur next : Cursor} {n : Nat} {α : Type}

/-- What is read, and the cursor or error after it, in a text with more bytes in front. -/
def outcomeLater (n : Nat) : Except SettingError (α × Cursor) → Except SettingError (α × Cursor)
  | .ok (a, next) => .ok (a, next.later n)
  | .error e => .error (e.later n)

theorem sign_later : (cur.later n).sign = outcomeLater n cur.sign := by
  unfold sign
  rw [skipBlanks_later]
  simp only [later]
  cases cur.skipBlanks.rest with
  | nil => rfl
  | cons c rest =>
    dsimp only
    rw [Nat.add_right_comm]
    split
    · rfl
    · split <;> rfl

theorem identifier_later : (cur.later n).identifier = outcomeLater n cur.identifier := by
  unfold identifier
  rw [skipBlanks_later, span_later]
  dsimp only
  split <;> rfl

theorem parameter_later : (cur.later n).parameter = outcomeLater n cur.parameter := by
  unfold parameter
  rw [identifier_later]
  cases cur.identifier with
  | error e => rfl
  | ok named =>
    obtain ⟨name, after⟩ := named
    simp only [outcomeLater, skipBlanks_later, skip?_later]
    cases after.skipBlanks.skip? '[' with
    | none => rfl
    | some opened =>
      simp only [Option.map_some, span_later, skip?_later]
      cases (opened.span (· ≠ ']')).2.skip? ']' <;> rfl

theorem parameters_later {before : Array (String × String)} :
    (cur.later n).parameters before = outcomeLater n (cur.parameters before) := by
  induction cur, before using parameters.induct with
  | case1 cur before closed closing =>
    rw [parameters_of_closed closing]
    refine parameters_of_closed ?_
    rw [skip?_skipBlanks_later, closing, Option.map_some]
  | case2 cur before notClosed e failed =>
    rw [parameters_of_error notClosed failed]
    refine parameters_of_error ?_ ?_
    · rw [skip?_skipBlanks_later, notClosed, Option.map_none]
    · rw [skipBlanks_later, parameter_later, failed, outcomeLater]
  | case3 cur before notClosed entry next read ih =>
    rw [parameters_of_parameter notClosed read, ← ih]
    refine parameters_of_parameter ?_ ?_
    · rw [skip?_skipBlanks_later, notClosed, Option.map_none]
    · rw [skipBlanks_later, parameter_later, read, outcomeLater]

theorem setting_later : (cur.later n).setting = outcomeLater n cur.setting := by
  unfold setting
  rw [sign_later]
  cases cur.sign with
  | error e => rfl
  | ok signed =>
    obtain ⟨status, signed⟩ := signed
    simp only [outcomeLater, identifier_later]
    cases signed.identifier with
    | error e => rfl
    | ok named =>
      obtain ⟨feature, named⟩ := named
      simp only [skipBlanks_later, skip?_later]
      cases named.skipBlanks.skip? '(' with
      | none => rfl
      | some opened =>
        simp only [Option.map_some, parameters_later]
        cases opened.parameters #[] with
        | error e => rfl
        | ok closed => rfl

theorem atEnd_later : (cur.later n).atEnd = cur.atEnd.mapError (SettingError.later n) := by
  unfold atEnd
  rw [skipBlanks_later]
  by_cases ends : cur.skipBlanks.rest.isEmpty <;> simp [later, ends, fail] <;> rfl

/-- Reading settings goes the same way in a text with more bytes in front. -/
theorem settings_later :
    (cur.later n).settings = cur.settings.mapError (SettingError.later n) := by
  induction cur using settings.induct with
  | case1 cur e failed =>
    have failed' : (cur.later n).setting = .error (e.later n) := by
      rw [setting_later, failed, outcomeLater]
    rw [settings_of_error failed, settings_of_error failed']
    rfl
  | case2 cur s next read separated comma ih =>
    have read' : (cur.later n).setting = .ok (s, next.later n) := by
      rw [setting_later, read, outcomeLater]
    have comma' : (next.later n).skipBlanks.skip? ',' = some (separated.later n) := by
      rw [skip?_skipBlanks_later, comma, Option.map_some]
    rw [settings_of_comma read comma, settings_of_comma read' comma', ih]
    cases separated.settings <;> rfl
  | case3 cur s next read last =>
    have read' : (cur.later n).setting = .ok (s, next.later n) := by
      rw [setting_later, read, outcomeLater]
    have last' : (next.later n).skipBlanks.skip? ',' = none := by
      rw [skip?_skipBlanks_later, last, Option.map_none]
    rw [settings_of_last read last, settings_of_last read' last', atEnd_later]
    cases next.atEnd <;> rfl

/-- A list that is read has the setting in front, alone at the end of the text or before more. -/
theorem exists_of_settings {list : List FeatureSetting} (reads : cur.settings = .ok list) :
    ∃ s next, cur.setting = .ok (s, next) ∧
      ((next.skipBlanks.rest = [] ∧ list = [s]) ∨
        ∃ separated others, next.skipBlanks.skip? ',' = some separated ∧
          separated.settings = .ok others ∧ list = s :: others) := by
  cases read : cur.setting with
  | error e =>
    rw [settings_of_error read] at reads
    cases reads
  | ok first =>
    obtain ⟨s, next⟩ := first
    refine ⟨s, next, rfl, ?_⟩
    cases comma : next.skipBlanks.skip? ',' with
    | none =>
      rw [settings_of_last read comma] at reads
      obtain ⟨ends, single⟩ := atEnd_map_eq_ok_iff.mp reads
      exact .inl ⟨ends, single.symm⟩
    | some separated =>
      rw [settings_of_comma read comma] at reads
      cases more : separated.settings with
      | error e =>
        rw [more] at reads
        cases reads
      | ok others =>
        rw [more] at reads
        exact .inr ⟨separated, others, rfl, more, (Except.ok.inj reads).symm⟩

theorem settings_ne_nil : cur.settings ≠ .ok [] := by
  intro nothing
  obtain ⟨s, next, -, ⟨-, single⟩ | ⟨separated, others, -, -, longer⟩⟩ :=
    exists_of_settings nothing
  · cases single
  · cases longer

theorem settings_eq_singleton_iff {s : FeatureSetting} :
    cur.settings = .ok [s] ↔ ∃ next, cur.setting = .ok (s, next) ∧ next.skipBlanks.rest = [] := by
  refine ⟨fun reads => ?_, fun ⟨next, read, ends⟩ => ?_⟩
  · obtain ⟨s', next, read, ⟨ends, single⟩ | ⟨separated, others, -, more, longer⟩⟩ :=
      exists_of_settings reads
    · cases single
      exact ⟨next, read, ends⟩
    · cases longer
      exact absurd more settings_ne_nil
  · have last : next.skipBlanks.skip? ',' = none := skip?_eq_none_iff.mpr (by simp [ends])
    rw [settings_of_last read last, atEnd_map_eq_ok_iff]
    exact ⟨ends, rfl⟩

end Cursor

theorem IsSetting.not_blank {status : ToggleStatus} {name : String}
    {entries : List (String × String)} {text : List Char}
    (form : IsSetting status name entries text) : ¬ Blank text := by
  intro blank
  obtain ⟨_, _, _, _, _, _⟩ := form
  exact blank.not_mem status.symbol_apart.1 (by simp)

namespace FeatureSetting

variable {text a b : String} {s : FeatureSetting}

theorem parseAll_of_blank (blank : Blank text.toList) : parseAll text = .ok [] :=
  if_pos (Cursor.isEmpty_skipBlanks_iff.mpr blank)

theorem parseAll_of_not_blank (written : ¬ Blank text.toList) :
    parseAll text = (Cursor.start text).settings :=
  if_neg (mt Cursor.isEmpty_skipBlanks_iff.mp written)

theorem parseAll_eq_nil_iff : parseAll text = .ok [] ↔ Blank text.toList := by
  refine ⟨fun nothing => ?_, parseAll_of_blank⟩
  by_contra written
  rw [parseAll_of_not_blank written] at nothing
  exact Cursor.settings_ne_nil nothing

theorem parse_eq_ok_iff_parseAll : parse text = .ok s ↔ parseAll text = .ok [s] := by
  by_cases blank : Blank text.toList
  · rw [parseAll_of_blank blank, parse_eq_ok_iff_isSetting]
    exact ⟨fun ⟨_, form, _⟩ => absurd blank form.not_blank, nofun⟩
  · rw [parseAll_of_not_blank blank, parse_eq_ok_iff, Cursor.settings_eq_singleton_iff]

theorem parseAll_append (parsed : parse a = .ok s) (written : ¬ Blank b.toList) :
    parseAll (a ++ "," ++ b) =
      ((parseAll b).map (s :: ·)).mapError (SettingError.later (a.utf8ByteSize + 1)) := by
  obtain ⟨entries, form, same⟩ := parse_eq_ok_iff_isSetting.mp parsed
  have whole : (a ++ "," ++ b).toList = a.toList ++ ',' :: b.toList := by simp
  have passes : (Cursor.start (a ++ "," ++ b)).Passes a.toList
      ⟨a.utf8ByteSize, ',' :: b.toList⟩ :=
    ⟨whole, by rw [utf8Length_toList, Cursor.start, Nat.zero_add]⟩
  obtain ⟨next, read, skipped⟩ :=
    Cursor.setting_of_isSetting form passes fun c here => (Option.some.inj here).symm
  have comma : next.skipBlanks.skip? ',' =
      some ((Cursor.start b).later (a.utf8ByteSize + 1)) := by
    rw [skipped]
    refine Cursor.skip?_eq_some_iff.mpr ⟨rfl, ?_⟩
    have width : utf8Length [','] = 1 := rfl
    simp only [Cursor.later, Cursor.start, width, Nat.zero_add]
  have notBlank : ¬ Blank (a ++ "," ++ b).toList := by
    intro blank
    exact blank.not_mem (delimiters_apart ',' (by decide)).1 (by simp)
  rw [parseAll_of_not_blank notBlank, parseAll_of_not_blank written,
    Cursor.settings_of_comma read comma, Cursor.settings_later, ← same]
  cases (Cursor.start b).settings <;> rfl

/-- Reading a text as one setting or as a list of one is the same, only white space is the empty
list, and a setting in front of a list, with a comma between, is the first of the longer list. What
is wrong with the rest of the list is wrong at the same place of it, and is told by the same message
but for the position. -/
theorem parseAll_composes :
    (∀ text s, parse text = .ok s ↔ parseAll text = .ok [s]) ∧
      (∀ text, parseAll text = .ok [] ↔ ∀ c ∈ text.toList, Text.isBlank c = true) ∧
      ∀ a b s, parse a = .ok s → (¬ ∀ c ∈ b.toList, Text.isBlank c = true) →
        (parseAll (a ++ "," ++ b) = match parseAll b with
          | .ok others => .ok (s :: others)
          | .error e => .error ⟨e.fault, e.position + (a.utf8ByteSize + 1)⟩) ∧
        ∀ e, parseAll b = .error e → ∃ e', parseAll (a ++ "," ++ b) = .error e' ∧
          e.message = "Feature parse error: " ++ e.fault.message ++ " at position " ++
            toString e.position ∧
          e'.message = "Feature parse error: " ++ e.fault.message ++ " at position " ++
            toString (e.position + (a.utf8ByteSize + 1)) := by
  refine ⟨fun text s => parse_eq_ok_iff_parseAll, fun text => parseAll_eq_nil_iff, ?_⟩
  intro a b s parsed written
  have joined := parseAll_append parsed written
  refine ⟨?_, fun e failed => ⟨e.later (a.utf8ByteSize + 1), ?_, rfl, rfl⟩⟩
  · rw [joined]
    cases parseAll b <;> rfl
  · rw [joined, failed]
    rfl

/-- A comma in a value separates nothing. What follows has no sign, which is noticed behind its
first character; `é` has two bytes. -/
theorem parseAll_composes_commaInValue :
    parse "+A(x[,é])" = .ok ⟨"A", .activate, .ofEntries [("x", ",é")]⟩ ∧
      (¬ ∀ c ∈ "B".toList, Text.isBlank c = true) ∧
      parseAll "+A(x[,é]),B" = .error ⟨.missingSign, 12⟩ ∧
      ∃ e e', parseAll "B" = .error e ∧ parseAll "+A(x[,é]),B" = .error e' ∧
        e.message =
          "Feature parse error: Expected '+' or '-' before feature name at position 1" ∧
        e'.message =
          "Feature parse error: Expected '+' or '-' before feature name at position 12" := by
  have nameA : IsName "A" := ⟨by decide, List.all_eq_true.mp (by decide +kernel)⟩
  have nameX : IsName "x" := ⟨by decide, List.all_eq_true.mp (by decide +kernel)⟩
  have form : IsSetting .activate "A" [("x", ",é")] "+A(x[,é])".toList :=
    .intro .nil .nil nameA .nil (.present .nil (.next nameX .nil (by decide) .nil .none)) .nil
  have read : parse "+A(x[,é])" = .ok ⟨"A", .activate, .ofEntries [("x", ",é")]⟩ :=
    parse_eq_ok_iff_isSetting.mpr ⟨_, form, rfl⟩
  have written : ¬ ∀ c ∈ "B".toList, Text.isBlank c = true := by
    intro blank
    exact absurd (blank 'B' (by simp)) (by decide)
  have unsigned : parseAll "B" = .error ⟨.missingSign, 1⟩ := by
    rw [parseAll_of_not_blank written]
    exact Cursor.settings_of_error rfl
  obtain ⟨composed, messages⟩ := parseAll_composes.2.2 "+A(x[,é])" "B" _ read written
  obtain ⟨e', failed, first, later⟩ := messages _ unsigned
  rw [unsigned] at composed
  exact ⟨read, written, composed, _, e', unsigned, failed, first.trans (by decide),
    later.trans (by decide)⟩

end FeatureSetting

end MutantSieve
