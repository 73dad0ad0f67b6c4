import MutantSieve.Feature.SettingText
import MutantSieve.Proofs.Text.Reading
import MutantSieve.SortedMap.Lemmas

namespace MutantSieve

/-- None of the characters with a meaning of their own is white space or part of a name. -/
theorem delimiters_apart : ∀ c ∈ ['+', '-', '(', ')', '[', ']', ','],
    Text.isBlank c = false ∧ isIdentifierChar c = false := by
  intro c member
  have apart : ['+', '-', '(', ')', '[', ']', ','].all
      (fun c => !Text.isBlank c && !isIdentifierChar c) = true := by
    decide +kernel
  simpa using List.all_eq_true.mp apart c member

/-- No name contains white space. -/
theorem isIdentifierChar_of_isBlank {c : Char} (blank : Text.isBlank c = true) :
    isIdentifierChar c = false := by
  have apart : ∀ n ∈ Text.blanks,
      (Text.alphanumericRuns.any fun run => run.1 ≤ n && n ≤ run.2) = false ∧
        n ≠ '_'.toNat ∧ n ≠ '.'.toNat := by
    decide +kernel
  obtain ⟨notAlphanumeric, notUnderscore, notDot⟩ := apart c.toNat (List.contains_iff_mem.mp blank)
  have underscore : c ≠ '_' := fun same => notUnderscore (congrArg Char.toNat same)
  have dot : c ≠ '.' := fun same => notDot (congrArg Char.toNat same)
  rw [isIdentifierChar, Text.isAlphanumeric, notAlphanumeric, decide_eq_false underscore,
    decide_eq_false dot]
  rfl

theorem ToggleStatus.symbol_apart (status : ToggleStatus) :
    Text.isBlank status.symbol = false ∧ isIdentifierChar status.symbol = false := by
  cases status <;> exact delimiters_apart _ (by decide)

/-- A name: one or more of the characters that names are made of. -/
structure IsName (name : String) : Prop where
  nonempty : name.toList ≠ []
  chars : ∀ c ∈ name.toList, isIdentifierChar c = true

/-- Parameters with a value each, and white space behind them. -/
inductive IsParameters : List (String × String) → List Char → Prop
  | none : IsParameters [] []
  | next {name value gap after entries text} : IsName name → Blank gap → ']' ∉ value.toList →
      Blank after → IsParameters entries text →
      IsParameters ((name, value) :: entries)
        (name.toList ++ gap ++ ['['] ++ value.toList ++ [']'] ++ after ++ text)

/-- Parameters in parentheses, which may be missing. -/
inductive IsParameterPart : List (String × String) → List Char → Prop
  | absent : IsParameterPart [] []
  | present {inner entries text} : Blank inner → IsParameters entries text →
      IsParameterPart entries (['('] ++ inner ++ text ++ [')'])

/-- The text of a setting. -/
inductive IsSetting (status : ToggleStatus) (name : String) (entries : List (String × String)) :
    List Char → Prop
  | intro {before between gap part after} : Blank before → Blank between → IsName name →
      Blank gap → IsParameterPart entries part → Blank after →
      IsSetting status name entries
        (before ++ [status.symbol] ++ between ++ name.toList ++ gap ++ part ++ after)

namespace Cursor

variable {cur next last : Cursor} {name value : String} {status : ToggleStatus}
  {entries : List (String × String)} {text read : List Char}

/-- The first character of a name fails the tests that the characters of names fail. -/
theorem Passes.outside_of_isName {p : Char → Bool} (passes : cur.Passes name.toList next)
    (named : IsName name) (fails : ∀ c, isIdentifierChar c = true → p c = false) :
    cur.Outside p := by
  obtain ⟨c, cs, parts⟩ := List.exists_cons_of_ne_nil named.nonempty
  rw [parts] at passes
  exact passes.outside (fails c (named.chars c (parts ▸ List.mem_cons_self ..)))

theorem Passes.outside_blanks_of_isName (passes : cur.Passes name.toList next)
    (named : IsName name) : cur.Outside Text.isBlank := by
  refine passes.outside_of_isName named fun c identifier => ?_
  by_contra blank
  rw [isIdentifierChar_of_isBlank (Bool.not_eq_false _ ▸ blank)] at identifier
  cases identifier

theorem identifier_iff_passes : cur.identifier = .ok (name, next) ↔
    ∃ gap, Blank gap ∧ IsName name ∧ cur.Passes (gap ++ name.toList) next ∧
      next.Outside isIdentifierChar := by
  rw [identifier_eq_ok_iff]
  refine ⟨fun ⟨spanned, nonempty⟩ => ?_, fun ⟨gap, blank, named, passes, outside⟩ => ?_⟩
  · obtain ⟨gap, ofGap, blank, -⟩ := cur.exists_passes_skipBlanks
    obtain ⟨ofName, chars, outside⟩ := span_eq_iff.mp spanned
    exact ⟨gap, blank, ⟨nonempty, chars⟩, ofGap.trans ofName, outside⟩
  · obtain ⟨start, ofGap, ofName⟩ := passes.split
    have skipped : cur.skipBlanks = start :=
      skipBlanks_eq_iff.mpr ⟨gap, ofGap, blank, ofName.outside_blanks_of_isName named⟩
    rw [skipped]
    exact ⟨span_eq_iff.mpr ⟨ofName, named.chars, outside⟩, named.nonempty⟩

theorem sign_iff_passes : cur.sign = .ok (status, next) ↔
    ∃ gap, Blank gap ∧ cur.Passes (gap ++ [status.symbol]) next := by
  rw [sign_eq_ok_iff, skip?_eq_some_iff]
  refine ⟨fun ofSign => ?_, fun ⟨gap, blank, passes⟩ => ?_⟩
  · obtain ⟨gap, ofGap, blank, -⟩ := cur.exists_passes_skipBlanks
    exact ⟨gap, blank, ofGap.trans ofSign⟩
  · obtain ⟨start, ofGap, ofSign⟩ := passes.split
    have skipped : cur.skipBlanks = start :=
      skipBlanks_eq_iff.mpr ⟨gap, ofGap, blank, ofSign.outside status.symbol_apart.1⟩
    rw [skipped]
    exact ofSign

theorem parameter_iff_passes : cur.parameter = .ok ((name, value), next) ↔
    ∃ before gap, Blank before ∧ IsName name ∧ Blank gap ∧ ']' ∉ value.toList ∧
      cur.Passes (before ++ name.toList ++ gap ++ ['['] ++ value.toList ++ [']']) next := by
  rw [parameter_eq_ok_iff]
  refine ⟨fun ⟨named, opened, valued, nameRead, opening, spanned, closing⟩ => ?_,
    fun ⟨before, gap, blank, isName, blankGap, closes, passes⟩ => ?_⟩
  · obtain ⟨before, blank, isName, toName, -⟩ := identifier_iff_passes.mp nameRead
    obtain ⟨gap, ofGap, blankGap, -⟩ := named.exists_passes_skipBlanks
    obtain ⟨ofValue, inside, -⟩ := span_eq_iff.mp spanned
    refine ⟨before, gap, blank, isName, blankGap, fun member => ?_, ?_⟩
    · exact of_decide_eq_true (inside _ member) rfl
    · have toBracket := (toName.trans ofGap).trans (skip?_eq_some_iff.mp opening)
      exact (toBracket.trans ofValue).trans (skip?_eq_some_iff.mp closing)
  · obtain ⟨valued, toValued, closing⟩ := passes.split
    obtain ⟨opened, toOpened, ofValue⟩ := toValued.split
    obtain ⟨gapped, toGapped, opening⟩ := toOpened.split
    obtain ⟨named, toName, ofGap⟩ := toGapped.split
    obtain ⟨blankBracket, noNameBracket⟩ := delimiters_apart '[' (by decide)
    have outside : named.Outside isIdentifierChar :=
      ofGap.outside_of_blank blankGap (fun _ => isIdentifierChar_of_isBlank)
        (opening.outside noNameBracket)
    have skipped : named.skipBlanks = gapped :=
      skipBlanks_eq_iff.mpr ⟨gap, ofGap, blankGap, opening.outside blankBracket⟩
    refine ⟨named, opened, valued, ?_, ?_, ?_, skip?_eq_some_iff.mpr closing⟩
    · exact identifier_iff_passes.mpr ⟨before, blank, isName, toName, outside⟩
    · exact skipped ▸ skip?_eq_some_iff.mpr opening
    · refine span_eq_iff.mpr ⟨ofValue, fun c member => ?_, closing.outside rfl⟩
      exact decide_eq_true fun same => closes (same ▸ member)

theorem exists_of_parameters {before : Array (String × String)} {parameters : Parameters}
    (reads : cur.parameters before = .ok (parameters, next)) :
    ∃ inner entries text, Blank inner ∧ IsParameters entries text ∧
      cur.Passes (inner ++ text ++ [')']) next ∧
      parameters = .ofEntries (before.toList ++ entries) := by
  revert reads
  fun_induction Cursor.parameters cur before with
  | case1 cur before closed closing =>
    intro reads
    obtain ⟨rfl, rfl⟩ := Prod.mk.inj (Except.ok.inj reads)
    obtain ⟨inner, skipped, blank, -⟩ := cur.exists_passes_skipBlanks
    refine ⟨inner, [], [], blank, .none, ?_, by rw [List.append_nil]⟩
    rw [List.append_nil]
    exact skipped.trans (skip?_eq_some_iff.mp closing)
  | case2 =>
    intro reads
    cases reads
  | case3 cur before notClosed entry after parsed ih =>
    intro reads
    obtain ⟨name, value⟩ := entry
    obtain ⟨inner, skipped, blank, -⟩ := cur.exists_passes_skipBlanks
    obtain ⟨start, gap, blankStart, named, blankGap, closes, ofEntry⟩ :=
      parameter_iff_passes.mp parsed
    obtain ⟨behind, entries, text, blankBehind, others, ofOthers, rfl⟩ := ih reads
    refine ⟨inner ++ start, (name, value) :: entries, _, blank.append blankStart,
      .next named blankGap closes blankBehind others, ?_, ?_⟩
    · simpa only [List.append_assoc] using (skipped.trans ofEntry).trans ofOthers
    · rw [Array.toList_push, List.append_assoc, List.singleton_append]

theorem parameters_of_isParameters (form : IsParameters entries text) {inner : List Char}
    (blank : Blank inner) (passes : cur.Passes (inner ++ text ++ [')']) next)
    (before : Array (String × String)) :
    cur.parameters before = .ok (.ofEntries (before.toList ++ entries), next) := by
  induction form generalizing cur inner before with
  | none =>
    rw [List.append_nil] at passes
    obtain ⟨closing, ofInner, close⟩ := passes.split
    have skipped : cur.skipBlanks = closing := skipBlanks_eq_iff.mpr
      ⟨inner, ofInner, blank, close.outside (delimiters_apart ')' (by decide)).1⟩
    rw [List.append_nil]
    exact parameters_of_closed (skipped ▸ skip?_eq_some_iff.mpr close)
  | @next name value gap after entries text named blankGap closes blankAfter others ih =>
    have parts : cur.Passes (inner ++ (name.toList ++ (gap ++ ['['] ++ value.toList ++ [']'] ++
        (after ++ text ++ [')'])))) next := by
      simpa only [List.append_assoc] using passes
    obtain ⟨start, ofInner, ofRest⟩ := parts.split
    obtain ⟨ending, ofName, ofRest⟩ := ofRest.split
    obtain ⟨behind, ofValue, ofOthers⟩ := ofRest.split
    have skipped : cur.skipBlanks = start :=
      skipBlanks_eq_iff.mpr ⟨inner, ofInner, blank, ofName.outside_blanks_of_isName named⟩
    have notClosed : start.skip? ')' = none := by
      have outside : start.Outside fun c => !isIdentifierChar c :=
        ofName.outside_of_isName named fun c identifier => by rw [identifier, Bool.not_true]
      refine skip?_of_outside outside ?_
      rw [(delimiters_apart ')' (by decide)).2, Bool.not_false]
    have parsed : start.parameter = .ok ((name, value), behind) := by
      refine parameter_iff_passes.mpr ⟨[], gap, .nil, named, blankGap, closes, ?_⟩
      simpa only [List.append_assoc, List.nil_append] using ofName.trans ofValue
    have rest := ih blankAfter ofOthers (before.push (name, value))
    rw [Array.toList_push, List.append_assoc, List.singleton_append] at rest
    exact (parameters_of_parameter (skipped ▸ notClosed) (skipped ▸ parsed)).trans rest

/-- What is read as a setting, with the white space behind it, is a text of the grammar. -/
theorem exists_of_setting {s : FeatureSetting} (reads : cur.setting = .ok (s, next)) :
    ∃ entries text, IsSetting s.status s.feature entries text ∧
      cur.Passes text next.skipBlanks ∧ s.parameters = .ofEntries entries := by
  obtain ⟨signed, named, signRead, nameRead, behind⟩ := setting_eq_ok_iff.mp reads
  obtain ⟨before, blankBefore, ofSign⟩ := sign_iff_passes.mp signRead
  obtain ⟨between, blankBetween, isName, ofName, -⟩ := identifier_iff_passes.mp nameRead
  obtain ⟨gap, ofGap, blankGap, -⟩ := named.exists_passes_skipBlanks
  obtain ⟨after, ofAfter, blankAfter, -⟩ := next.exists_passes_skipBlanks
  have toGap := (ofSign.trans ofName).trans ofGap
  obtain ⟨-, nothing, rfl⟩ | ⟨opened, opening, parametersRead⟩ := behind
  · refine ⟨[], _, .intro blankBefore blankBetween isName blankGap .absent blankAfter, ?_, nothing⟩
    simpa only [List.append_assoc, List.append_nil] using toGap.trans ofAfter
  · obtain ⟨inner, entries, text, blankInner, form, ofParameters, listed⟩ :=
      exists_of_parameters parametersRead
    have ofPart := (skip?_eq_some_iff.mp opening).trans ofParameters
    refine ⟨entries, _, .intro blankBefore blankBetween isName blankGap
      (.present blankInner form) blankAfter, ?_, listed⟩
    simpa only [List.append_assoc] using (toGap.trans ofPart).trans ofAfter

/-- A text of the grammar is read as a setting where the text ends or a comma comes next. -/
theorem setting_of_isSetting (form : IsSetting status name entries text)
    (passes : cur.Passes text last) (separated : ∀ c ∈ last.rest.head?, c = ',') :
    ∃ next, cur.setting = .ok (⟨name, status, .ofEntries entries⟩, next) ∧
      next.skipBlanks = last := by
  obtain ⟨blankComma, noNameComma⟩ := delimiters_apart ',' (by decide)
  have outside : last.Outside Text.isBlank := fun c next => separated c next ▸ blankComma
  have outsideName : last.Outside isIdentifierChar := fun c next => separated c next ▸ noNameComma
  obtain @⟨before, between, gap, part, after, blankBefore, blankBetween, isName, blankGap,
    partForm, blankAfter⟩ := form
  obtain ⟨parted, toPart, ofAfter⟩ := passes.split
  obtain ⟨gapped, toGap, ofPart⟩ := toPart.split
  obtain ⟨named, toName, ofGap⟩ := toGap.split
  have toName : cur.Passes (before ++ [status.symbol] ++ (between ++ name.toList)) named := by
    simpa only [List.append_assoc] using toName
  obtain ⟨signed, toSign, ofName⟩ := toName.split
  have signRead : cur.sign = .ok (status, signed) :=
    sign_iff_passes.mpr ⟨before, blankBefore, toSign⟩
  have nameRead (outsideName : named.Outside isIdentifierChar) :
      signed.identifier = .ok (name, named) :=
    identifier_iff_passes.mpr ⟨between, blankBetween, isName, ofName, outsideName⟩
  cases partForm with
  | absent =>
    obtain rfl : gapped = parted := (Passes.refl gapped).unique ofPart
    have blanks := blankGap.append blankAfter
    have toLast := ofGap.trans ofAfter
    have skipped : named.skipBlanks = last :=
      skipBlanks_eq_iff.mpr ⟨gap ++ after, toLast, blanks, outside⟩
    have notOpened : last.skip? '(' = none :=
      skip?_eq_none_iff.mpr fun next => absurd (separated _ next) (by decide)
    have nameRead := nameRead
      (toLast.outside_of_blank blanks (fun _ => isIdentifierChar_of_isBlank) outsideName)
    refine ⟨last, setting_eq_ok_iff.mpr ?_, skipBlanks_of_outside outside⟩
    exact ⟨signed, named, signRead, nameRead, .inl ⟨skipped ▸ notOpened, rfl, skipped.symm⟩⟩
  | @present inner _ text blankInner parametersForm =>
    have ofPart : gapped.Passes (['('] ++ (inner ++ text ++ [')'])) parted := by
      simpa only [List.append_assoc] using ofPart
    obtain ⟨opened, opening, ofParameters⟩ := ofPart.split
    obtain ⟨blankBracket, noNameBracket⟩ := delimiters_apart '(' (by decide)
    have skipped : named.skipBlanks = gapped :=
      skipBlanks_eq_iff.mpr ⟨gap, ofGap, blankGap, opening.outside blankBracket⟩
    have nameRead := nameRead (ofGap.outside_of_blank blankGap
      (fun _ => isIdentifierChar_of_isBlank) (opening.outside noNameBracket))
    have parametersRead := parameters_of_isParameters parametersForm blankInner ofParameters #[]
    refine ⟨parted, setting_eq_ok_iff.mpr ?_,
      skipBlanks_eq_iff.mpr ⟨after, ofAfter, blankAfter, outside⟩⟩
    exact ⟨signed, named, signRead, nameRead,
      .inr ⟨opened, skipped ▸ skip?_eq_some_iff.mpr opening, parametersRead⟩⟩

theorem atEnd_map_eq_ok_iff {α : Type} {a b : α} :
    (cur.atEnd.map fun _ => a) = .ok b ↔ cur.skipBlanks.rest = [] ∧ a = b := by
  unfold atEnd
  split
  · next ends => simp [Except.map, List.isEmpty_iff.mp ends]
  · next goesOn => simp [Except.map, fail, mt List.isEmpty_iff.mpr goesOn]

end Cursor

namespace Parameters

/-- The values that are listed for a name, in order. -/
def listed (entries : List (String × String)) (name : String) : List String :=
  (entries.filter (·.1 = name)).map (·.2)

/-- The values of a parameter are those listed for its name, if there are any. -/
theorem get?_ofEntries (entries : List (String × String)) (name : String) :
    (ofEntries entries).get? name =
      if listed entries name = [] then none else some (listed entries name) := by
  induction entries with
  | nil => rfl
  | cons entry entries ih =>
    have added : (ofEntries (entry :: entries)).get? name = if name = entry.1 then
        some (entry.2 :: (ofEntries entries).values entry.1)
      else (ofEntries entries).get? name :=
      SortedMap.get?_insert ..
    rw [added]
    by_cases here : entry.1 = name
    · have others : (ofEntries entries).values name = listed entries name := by
        rw [values, ih]
        split
        · next nothing => exact nothing.symm
        · rfl
      have first : listed (entry :: entries) name = entry.2 :: listed entries name := by
        simp [listed, here]
      rw [if_pos here.symm, here, others, first, if_neg (List.cons_ne_nil _ _)]
    · have same : listed (entry :: entries) name = listed entries name := by
        simp [listed, here]
      rw [if_neg (Ne.symm here), ih, same]

theorem eq_ofEntries_iff {parameters : Parameters} {entries : List (String × String)} :
    parameters = ofEntries entries ↔ ∀ name values, parameters.get? name = some values ↔
      values ≠ [] ∧ values = listed entries name := by
  have found (name : String) (values : List String) :
      (ofEntries entries).get? name = some values ↔ values ≠ [] ∧ values = listed entries name := by
    rw [get?_ofEntries]
    split
    · next nothing =>
      rw [nothing]
      exact ⟨nofun, fun ⟨nonempty, same⟩ => absurd same nonempty⟩
    · next nonempty =>
      rw [Option.some.injEq]
      exact ⟨fun same => ⟨same ▸ nonempty, same.symm⟩, fun ⟨_, same⟩ => same.symm⟩
  refine ⟨fun same => same ▸ found, fun same => ?_⟩
  refine SortedMap.ext_get? fun name => Option.ext fun values => ?_
  rw [same name values, found name values]

end Parameters

namespace FeatureSetting

variable {text : String} {s : FeatureSetting}

theorem parse_eq_ok_iff : parse text = .ok s ↔
    ∃ next, (Cursor.start text).setting = .ok (s, next) ∧ next.skipBlanks.rest = [] := by
  unfold parse
  cases (Cursor.start text).setting with
  | error e => exact ⟨nofun, nofun⟩
  | ok first =>
    obtain ⟨s', next⟩ := first
    dsimp only
    rw [Cursor.atEnd_map_eq_ok_iff]
    refine ⟨fun ⟨ends, same⟩ => ⟨next, by rw [same], ends⟩, fun ⟨next', read, ends⟩ => ?_⟩
    obtain ⟨rfl, rfl⟩ := Prod.mk.inj (Except.ok.inj read)
    exact ⟨ends, rfl⟩

theorem parse_eq_ok_iff_isSetting : parse text = .ok s ↔
    ∃ entries, IsSetting s.status s.feature entries text.toList ∧
      s.parameters = .ofEntries entries := by
  rw [parse_eq_ok_iff]
  refine ⟨fun ⟨next, read, ends⟩ => ?_, fun ⟨entries, form, same⟩ => ?_⟩
  · obtain ⟨entries, text', form, passes, same⟩ := Cursor.exists_of_setting read
    have whole : text.toList = text' := by
      rw [← List.append_nil text', ← ends]
      exact passes.rest
    exact ⟨entries, whole ▸ form, same⟩
  · obtain ⟨next, read, skipped⟩ :=
      Cursor.setting_of_isSetting form (Cursor.passes_start text) nofun
    rw [← same] at read
    exact ⟨next, read, by rw [skipped]⟩

/-- Reading succeeds on the texts of the grammar and on no others, and gives the name, the status of
the sign and, for each parameter that occurs, its values in order. -/
theorem parse_grammar (text : String) :
    ((∃ s, parse text = .ok s) ↔
        ∃ status name entries, IsSetting status name entries text.toList) ∧
      ∀ s, parse text = .ok s ↔ ∃ entries, IsSetting s.status s.feature entries text.toList ∧
        ∀ name values, s.parameters.get? name = some values ↔
          values ≠ [] ∧ values = Parameters.listed entries name := by
  refine ⟨⟨fun ⟨s, reads⟩ => ?_, fun ⟨status, name, entries, form⟩ => ?_⟩, fun s => ?_⟩
  · obtain ⟨entries, form, -⟩ := parse_eq_ok_iff_isSetting.mp reads
    exact ⟨s.status, s.feature, entries, form⟩
  · exact ⟨⟨name, status, .ofEntries entries⟩,
      parse_eq_ok_iff_isSetting.mpr ⟨entries, form, rfl⟩⟩
  · rw [parse_eq_ok_iff_isSetting]
    exact exists_congr fun entries => and_congr_right' Parameters.eq_ofEntries_iff

end FeatureSetting

end MutantSieve
