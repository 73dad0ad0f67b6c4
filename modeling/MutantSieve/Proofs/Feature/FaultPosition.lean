import MutantSieve.Proofs.Feature.SettingList

namespace MutantSieve

/-- What has been read is the beginning of a text of some form. -/
def Begun {Text : Type} [Append Text] (Form : Text → Prop) (read : Text) : Prop :=
  ∃ more, Form (read ++ more)

/-- The text of some setting. -/
def IsSettingText (text : List Char) : Prop :=
  ∃ status name entries, IsSetting status name entries text

/-- A parameter with its value, behind white space. -/
def IsParameterText (text : List Char) : Prop :=
  ∃ (before : List Char) (name : String) (gap : List Char) (value : String),
    Blank before ∧ IsName name ∧ Blank gap ∧ ']' ∉ value.toList ∧
    text = before ++ name.toList ++ gap ++ ['['] ++ value.toList ++ [']']

/-- Parameters up to the closing parenthesis. -/
def IsParametersText (text : List Char) : Prop :=
  ∃ inner entries body, Blank inner ∧ IsParameters entries body ∧ text = inner ++ body ++ [')']

/-- Settings with commas between them. -/
inductive IsSettingList : List Char → Prop
  | last {text} : IsSettingText text → IsSettingList text
  | next {text others} : IsSettingText text → IsSettingList others →
      IsSettingList (text ++ ',' :: others)

/-- A character where a sign should be, behind white space. -/
def IsUnsigned (read : List Char) : Prop :=
  ∃ gap c, Blank gap ∧ Text.isBlank c = false ∧ (∀ status : ToggleStatus, c ≠ status.symbol) ∧
    read = gap ++ [c]

theorem IsName.letter : IsName "A" := ⟨by decide, List.all_eq_true.mp (by decide +kernel)⟩

theorem begun_of_blank {read : List Char} (blank : Blank read) : Begun IsSettingText read := by
  have form : IsSetting .activate "A" [] _ := .intro blank .nil .letter .nil .absent .nil
  exact ⟨"+A".toList, .activate, "A", [], by simpa [ToggleStatus.symbol] using form⟩

namespace Cursor

variable {cur mid next : Cursor} {e : SettingError} {read more text : List Char}

/-- An error comes when these characters have been read. -/
def Stops (cur : Cursor) (read : List Char) (e : SettingError) : Prop :=
  ∃ stop, cur.Passes read stop ∧ e.position = stop.position

theorem Passes.stops (passes : cur.Passes read mid) (stops : mid.Stops more e) :
    cur.Stops (read ++ more) e := by
  obtain ⟨stop, later, position⟩ := stops
  exact ⟨stop, passes.trans later, position⟩

theorem Passes.stops_fail {α : Type} {fault : SettingFault} (passes : cur.Passes read mid)
    (failed : (mid.fail fault : Except SettingError α) = .error e) : cur.Stops read e := by
  obtain rfl := Except.error.inj failed
  exact ⟨mid, passes, rfl⟩

theorem Passes.stops_atEnd {α : Type} {a : α} (passes : cur.Passes read next.skipBlanks)
    (failed : (next.atEnd.map fun _ => a) = .error e) : cur.Stops read e := by
  unfold atEnd at failed
  split at failed
  · cases failed
  · exact passes.stops_fail failed

theorem identifier_error (failed : cur.identifier = .error e) :
    ∃ gap, Blank gap ∧ cur.Stops gap e := by
  obtain ⟨gap, ofGap, blank, -⟩ := cur.exists_passes_skipBlanks
  refine ⟨gap, blank, ?_⟩
  unfold identifier at failed
  cases spanned : cur.skipBlanks.span isIdentifierChar with
  | mk name after =>
    rw [spanned] at failed
    dsimp only at failed
    split at failed
    · next empty =>
      obtain ⟨ofName, -⟩ := span_eq_iff.mp spanned
      rw [List.isEmpty_iff.mp empty] at ofName
      have stops := (ofGap.trans ofName).stops_fail failed
      rwa [List.append_nil] at stops
    · cases failed

theorem parameter_error (failed : cur.parameter = .error e) :
    ∃ read, cur.Stops read e ∧ Begun IsParameterText read := by
  unfold parameter at failed
  split at failed
  · next e' unnamed =>
    obtain rfl := Except.error.inj failed
    obtain ⟨gap, blank, stops⟩ := identifier_error unnamed
    refine ⟨gap, stops, "A[]".toList, ?_⟩
    exact ⟨gap, "A", [], "", blank, .letter, .nil, by simp, by simp⟩
  · next name named nameRead =>
    obtain ⟨before, blank, isName, toName, -⟩ := identifier_iff_passes.mp nameRead
    obtain ⟨gap, ofGap, blankGap, -⟩ := named.exists_passes_skipBlanks
    split at failed
    · refine ⟨_, (toName.trans ofGap).stops_fail failed, "[]".toList, ?_⟩
      exact ⟨before, name, gap, "", blank, isName, blankGap, by simp, by simp⟩
    · next opened opening =>
      have toOpened := (toName.trans ofGap).trans (skip?_eq_some_iff.mp opening)
      dsimp only at failed
      split at failed
      · refine ⟨_, toOpened.stops_fail failed, "]".toList, ?_⟩
        exact ⟨before, name, gap, "", blank, isName, blankGap, by simp, by simp⟩
      · cases failed

theorem parameters_error {before : Array (String × String)}
    (failed : cur.parameters before = .error e) :
    ∃ read, cur.Stops read e ∧ Begun IsParametersText read := by
  induction cur, before using parameters.induct with
  | case1 cur before closed closing =>
    rw [parameters_of_closed closing] at failed
    cases failed
  | case2 cur before notClosed e' unread =>
    rw [parameters_of_error notClosed unread] at failed
    obtain rfl := Except.error.inj failed
    obtain ⟨inner, skipped, blank, -⟩ := cur.exists_passes_skipBlanks
    obtain ⟨read, stops, more, start, name, gap, value, blankStart, isName, blankGap, closes,
      form⟩ := parameter_error unread
    refine ⟨_, skipped.stops stops, more ++ [')'], ?_⟩
    refine ⟨inner ++ start, [(name, value)], _, blank.append blankStart,
      .next isName blankGap closes .nil .none, ?_⟩
    simp only [List.append_assoc, List.nil_append] at form ⊢
    rw [← List.append_assoc read, form]
    simp only [List.append_assoc]
  | case3 cur before notClosed entry next parsed ih =>
    rw [parameters_of_parameter notClosed parsed] at failed
    obtain ⟨inner, skipped, blank, -⟩ := cur.exists_passes_skipBlanks
    obtain ⟨start, gap, blankStart, named, blankGap, closes, ofEntry⟩ :=
      parameter_iff_passes.mp parsed
    obtain ⟨read, stops, more, behind, entries, body, blankBehind, others, form⟩ := ih failed
    refine ⟨_, (skipped.trans ofEntry).stops stops, more, ?_⟩
    refine ⟨inner ++ start, entry :: entries, _, blank.append blankStart,
      .next named blankGap closes blankBehind others, ?_⟩
    simp only [List.append_assoc] at form ⊢
    rw [form]

theorem sign_error (failed : cur.sign = .error e) :
    e.fault = .missingSign ∧
      ((∃ gap, Blank gap ∧ cur.Stops gap e) ∨ ∃ read, cur.Stops read e ∧ IsUnsigned read) := by
  obtain ⟨gap, ofGap, blank, outside⟩ := cur.exists_passes_skipBlanks
  unfold sign at failed
  dsimp only at failed
  split at failed
  · exact ⟨congrArg SettingError.fault (Except.error.inj failed).symm,
      .inl ⟨gap, blank, ofGap.stops_fail failed⟩⟩
  · next c rest here =>
    split at failed
    · cases failed
    · next notPlus =>
      split at failed
      · cases failed
      · next notMinus =>
        have ofChar : cur.skipBlanks.Passes [c] ⟨cur.skipBlanks.position + c.utf8Size, rest⟩ :=
          ⟨here, by simp [utf8Length]⟩
        have stops := (ofGap.trans ofChar).stops_fail failed
        refine ⟨congrArg SettingError.fault (Except.error.inj failed).symm,
          .inr ⟨_, stops, gap, c, blank, outside c (by simp [here]), ?_, rfl⟩⟩
        rintro (_ | _)
        · exact notPlus
        · exact notMinus

/-- An error in a setting comes while what has been read may still become one, or when a character
that is no sign has been read in place of the sign. -/
theorem setting_error (failed : cur.setting = .error e) :
    ∃ read, cur.Stops read e ∧
      (Begun IsSettingText read ∨ e.fault = .missingSign ∧ IsUnsigned read) := by
  unfold setting at failed
  split at failed
  · next e' unsigned =>
    obtain rfl := Except.error.inj failed
    obtain ⟨fault, ⟨gap, blank, stops⟩ | ⟨read, stops, unsigned⟩⟩ := sign_error unsigned
    · exact ⟨gap, stops, .inl (begun_of_blank blank)⟩
    · exact ⟨read, stops, .inr ⟨fault, unsigned⟩⟩
  · next status signed signRead =>
    obtain ⟨before, blankBefore, ofSign⟩ := sign_iff_passes.mp signRead
    split at failed
    · next e' unnamed =>
      obtain rfl := Except.error.inj failed
      obtain ⟨gap, blank, stops⟩ := identifier_error unnamed
      have form : IsSetting status "A" [] _ := .intro blankBefore blank .letter .nil .absent .nil
      exact ⟨_, ofSign.stops stops, .inl ⟨"A".toList, status, "A", [], by simpa using form⟩⟩
    · next name named nameRead =>
      obtain ⟨between, blankBetween, isName, ofName, -⟩ := identifier_iff_passes.mp nameRead
      obtain ⟨gap, ofGap, blankGap, -⟩ := named.exists_passes_skipBlanks
      split at failed
      · cases failed
      · next opened opening =>
        split at failed
        · next e' unread =>
          obtain rfl := Except.error.inj failed
          obtain ⟨read, stops, more, inner, entries, body, blankInner, form, whole⟩ :=
            parameters_error unread
          have toOpened := ((ofSign.trans ofName).trans ofGap).trans (skip?_eq_some_iff.mp opening)
          refine ⟨_, toOpened.stops stops, .inl ⟨more, status, name, entries, ?_⟩⟩
          have setting : IsSetting status name entries _ :=
            .intro blankBefore blankBetween isName blankGap (.present blankInner form) .nil
          simp only [List.append_assoc, List.append_nil] at setting whole ⊢
          rwa [whole]
        · cases failed

theorem setting_of_isSettingText (form : IsSettingText text) (passes : cur.Passes text next)
    (separated : ∀ c ∈ next.rest.head?, c = ',') :
    ∃ s after, cur.setting = .ok (s, after) ∧ after.skipBlanks = next := by
  obtain ⟨status, name, entries, form⟩ := form
  obtain ⟨after, reads, skipped⟩ := setting_of_isSetting form passes separated
  exact ⟨_, after, reads, skipped⟩

theorem isSettingText_of_setting {s : FeatureSetting} (reads : cur.setting = .ok (s, next)) :
    ∃ text, IsSettingText text ∧ cur.Passes text next.skipBlanks := by
  obtain ⟨entries, text, form, passes, -⟩ := exists_of_setting reads
  exact ⟨text, ⟨_, _, entries, form⟩, passes⟩

/-- A setting with a comma behind it is the first of the list that is read. -/
theorem settings_behind {others : List Char} (form : IsSettingText text)
    (here : cur.rest = text ++ ',' :: others) :
    ∃ (s : FeatureSetting) (separated : Cursor), separated.rest = others ∧
      cur.settings = separated.settings.map (s :: ·) := by
  have passes : cur.Passes text ⟨cur.position + utf8Length text, ',' :: others⟩ := ⟨here, rfl⟩
  obtain ⟨s, after, reads, skipped⟩ :=
    setting_of_isSettingText form passes fun c comma => (Option.some.inj comma).symm
  have comma : after.skipBlanks.skip? ',' =
      some ⟨cur.position + utf8Length text + ','.utf8Size, others⟩ := by
    rw [skipped]
    rfl
  exact ⟨s, _, rfl, settings_of_comma reads comma⟩

/-- Settings are read from the lists of settings and from nothing else. -/
theorem settings_isOk_iff : (∃ list, cur.settings = .ok list) ↔ IsSettingList cur.rest := by
  constructor
  · rintro ⟨list, reads⟩
    induction cur using settings.induct generalizing list with
    | case1 cur e failed =>
      rw [settings_of_error failed] at reads
      cases reads
    | case2 cur s next read separated comma ih =>
      obtain ⟨text, form, passes⟩ := isSettingText_of_setting read
      rw [settings_of_comma read comma] at reads
      cases more : separated.settings with
      | error e =>
        rw [more] at reads
        cases reads
      | ok others =>
        rw [(passes.trans (skip?_eq_some_iff.mp comma)).rest, List.append_assoc]
        exact .next form (ih others more)
    | case3 cur s next read last =>
      obtain ⟨text, form, passes⟩ := isSettingText_of_setting read
      rw [settings_of_last read last] at reads
      rw [passes.rest, (atEnd_map_eq_ok_iff.mp reads).1, List.append_nil]
      exact .last form
  · intro form
    generalize here : cur.rest = text at form
    induction form generalizing cur with
    | @last text form =>
      have passes : cur.Passes text ⟨cur.position + utf8Length text, []⟩ :=
        ⟨by rw [here, List.append_nil], rfl⟩
      have ended : ∀ c ∈ ([] : List Char).head?, c = ',' := by simp
      obtain ⟨s, after, reads, skipped⟩ := setting_of_isSettingText form passes ended
      exact ⟨[s], settings_eq_singleton_iff.mpr ⟨after, reads, by rw [skipped]⟩⟩
    | next form _ ih =>
      obtain ⟨s, separated, rest, reads⟩ := settings_behind form here
      obtain ⟨list, others⟩ := ih rest
      exact ⟨s :: list, by rw [reads, others]; rfl⟩

theorem setting_ne_ok_of_unsigned {s : FeatureSetting} (unsigned : IsUnsigned read)
    (passes : cur.Passes read mid) : cur.setting ≠ .ok (s, next) := by
  intro reads
  obtain ⟨gap, c, blank, written, noSign, rfl⟩ := unsigned
  obtain ⟨signed, named, signRead, -⟩ := setting_eq_ok_iff.mp reads
  obtain ⟨start, ofGap, ofChar⟩ := passes.split
  have skipped : cur.skipBlanks = start :=
    skipBlanks_eq_iff.mpr ⟨gap, ofGap, blank, ofChar.outside written⟩
  have ofSign := skip?_eq_some_iff.mp (skipped ▸ sign_eq_ok_iff.mp signRead)
  exact noSign s.status (List.cons.inj (ofChar.rest.symm.trans ofSign.rest)).1

end Cursor

section
variable {read text others : List Char}

theorem isSettingList_next_iff (form : IsSettingText text) :
    IsSettingList (text ++ ',' :: others) ↔ IsSettingList others := by
  refine ⟨fun list => ?_, .next form⟩
  let cur : Cursor := ⟨0, text ++ ',' :: others⟩
  obtain ⟨list, reads⟩ := cur.settings_isOk_iff.mpr list
  obtain ⟨s, separated, rest, behind⟩ := cur.settings_behind form rfl
  rw [behind] at reads
  rw [← rest, ← Cursor.settings_isOk_iff]
  cases more : separated.settings with
  | error e =>
    rw [more] at reads
    cases reads
  | ok list => exact ⟨list, rfl⟩

theorem IsUnsigned.not_begun (unsigned : IsUnsigned read) : ¬ Begun IsSettingList read := by
  rintro ⟨more, list⟩
  let cur : Cursor := ⟨0, read ++ more⟩
  obtain ⟨list, reads⟩ := cur.settings_isOk_iff.mpr list
  obtain ⟨s, next, first, -⟩ := Cursor.exists_of_settings reads
  have passes : Cursor.Passes ⟨0, read ++ more⟩ read ⟨utf8Length read, more⟩ :=
    ⟨rfl, (Nat.zero_add _).symm⟩
  exact Cursor.setting_ne_ok_of_unsigned unsigned passes first

theorem Begun.list (begun : Begun IsSettingText read) : Begun IsSettingList read := by
  obtain ⟨more, form⟩ := begun
  exact ⟨more, .last form⟩

/-- White space alone is a list as well, but also the beginning of others. -/
theorem begun_blank_or_list_iff :
    Begun (fun text => Blank text ∨ IsSettingList text) read ↔ Begun IsSettingList read := by
  refine ⟨fun ⟨more, form⟩ => ?_, fun ⟨more, list⟩ => ⟨more, .inr list⟩⟩
  rcases form with blank | list
  · exact (begun_of_blank fun c member => blank c (List.mem_append_left _ member)).list
  · exact ⟨more, list⟩

end

/-- Reading of texts of some form has come to an error behind these characters: either they are the
beginning of such a text, or the last of them is the fault, which stands where a sign should be. -/
def Faulty (Form : List Char → Prop) (fault : SettingFault) (read : List Char) : Prop :=
  Begun Form read ∨
    fault = .missingSign ∧ ¬ Begun Form read ∧
      ∃ earlier c, read = earlier ++ [c] ∧ Begun Form earlier

namespace Cursor

variable {cur : Cursor} {e : SettingError}

theorem settings_error (failed : cur.settings = .error e) :
    ∃ read, cur.Stops read e ∧ Faulty IsSettingList e.fault read := by
  induction cur using settings.induct with
  | case1 cur e' unread =>
    rw [settings_of_error unread] at failed
    obtain rfl := Except.error.inj failed
    obtain ⟨read, stops, begun | ⟨fault, unsigned⟩⟩ := setting_error unread
    · exact ⟨read, stops, .inl begun.list⟩
    · have notBegun := unsigned.not_begun
      obtain ⟨gap, c, blank, -, -, rfl⟩ := unsigned
      exact ⟨_, stops, .inr ⟨fault, notBegun, gap, c, rfl, (begun_of_blank blank).list⟩⟩
  | case2 cur s next reads separated comma ih =>
    obtain ⟨text, form, passes⟩ := isSettingText_of_setting reads
    rw [settings_of_comma reads comma] at failed
    have unread : separated.settings = .error e := by
      cases more : separated.settings with
      | error e' =>
        rw [more] at failed
        exact congrArg _ (Except.error.inj failed)
      | ok others =>
        rw [more] at failed
        cases failed
    have behind {read : List Char} :
        Begun IsSettingList (text ++ [','] ++ read) ↔ Begun IsSettingList read := by
      refine exists_congr fun more => ?_
      rw [List.append_assoc, List.append_assoc, List.singleton_append]
      exact isSettingList_next_iff form
    obtain ⟨read, stops, located⟩ := ih unread
    refine ⟨_, (passes.trans (skip?_eq_some_iff.mp comma)).stops stops, ?_⟩
    obtain begun | ⟨fault, notBegun, earlier, c, rfl, begun⟩ := located
    · exact .inl (behind.mpr begun)
    · exact .inr ⟨fault, mt behind.mp notBegun, text ++ [','] ++ earlier, c,
        (List.append_assoc ..).symm, behind.mpr begun⟩
  | case3 cur s next reads last =>
    obtain ⟨text, form, passes⟩ := isSettingText_of_setting reads
    rw [settings_of_last reads last] at failed
    exact ⟨text, passes.stops_atEnd failed, .inl ⟨[], .last (by rwa [List.append_nil])⟩⟩

end Cursor

/-- The position of an error is that of a character of the text or of its end, and what is before it
is the beginning of a text that is accepted; or else a character where a sign should be is the last
one before it, and such a beginning ends in front of this character. -/
def SettingError.Locates (e : SettingError) (accepts : String → Prop) (text : String) : Prop :=
  ∃ before behind, text = before ++ behind ∧ e.position = before.utf8ByteSize ∧
    e.message = "Feature parse error: " ++ e.fault.message ++ " at position " ++
      toString before.utf8ByteSize ∧
    (Begun accepts before ∨
      e.fault = .missingSign ∧ ¬ Begun accepts before ∧
        ∃ earlier c, before = earlier.push c ∧ Begun accepts earlier)

section
variable {accepts : String → Prop} {Form : List Char → Prop} {text : String} {read : List Char}
  {e : SettingError}

theorem begun_iff_toList (forms : ∀ text, accepts text ↔ Form text.toList) :
    Begun accepts (String.ofList read) ↔ Begun Form read := by
  refine ⟨fun ⟨more, accepted⟩ => ⟨more.toList, ?_⟩, fun ⟨more, form⟩ => ⟨String.ofList more, ?_⟩⟩
  · simpa using (forms _).mp accepted
  · exact (forms _).mpr (by simpa using form)

theorem Faulty.locates (forms : ∀ text, accepts text ↔ Form text.toList)
    (faulty : Faulty Form e.fault read) (stops : (Cursor.start text).Stops read e) :
    e.Locates accepts text := by
  obtain ⟨stop, passes, position⟩ := stops
  have bytes : e.position = (String.ofList read).utf8ByteSize := by
    rw [position, passes.position, ← utf8Length_toList, String.toList_ofList]
    exact Nat.zero_add _
  refine ⟨String.ofList read, String.ofList stop.rest, ?_, bytes, by rw [← bytes]; rfl, ?_⟩
  · rw [← String.ofList_append, ← passes.rest]
    exact String.ofList_toList.symm
  · obtain begun | ⟨fault, notBegun, earlier, c, rfl, begun⟩ := faulty
    · exact .inl ((begun_iff_toList forms).mpr begun)
    · refine .inr ⟨fault, mt (begun_iff_toList forms).mp notBegun, String.ofList earlier, c, ?_,
        (begun_iff_toList forms).mpr begun⟩
      rw [String.ofList_append, String.push_eq_append, String.singleton_eq_ofList]

end

namespace FeatureSetting

theorem parse_isOk_iff (text : String) :
    (∃ s, parse text = .ok s) ↔ IsSettingText text.toList := by
  refine ⟨fun ⟨s, reads⟩ => ?_, fun ⟨status, name, entries, form⟩ => ?_⟩
  · obtain ⟨entries, form, -⟩ := parse_eq_ok_iff_isSetting.mp reads
    exact ⟨s.status, s.feature, entries, form⟩
  · exact ⟨⟨name, status, .ofEntries entries⟩,
      parse_eq_ok_iff_isSetting.mpr ⟨entries, form, rfl⟩⟩

theorem parseAll_isOk_iff (text : String) :
    (∃ list, parseAll text = .ok list) ↔ Blank text.toList ∨ IsSettingList text.toList := by
  by_cases blank : Blank text.toList
  · exact iff_of_true ⟨[], parseAll_of_blank blank⟩ (.inl blank)
  · rw [parseAll_of_not_blank blank, Cursor.settings_isOk_iff]
    exact (or_iff_right blank).symm

theorem parse_error {text : String} {e : SettingError} (failed : parse text = .error e) :
    ∃ read, (Cursor.start text).Stops read e ∧ Faulty IsSettingText e.fault read := by
  unfold parse at failed
  split at failed
  · next e' unread =>
    obtain rfl := Except.error.inj failed
    obtain ⟨read, stops, begun | ⟨fault, unsigned⟩⟩ := Cursor.setting_error unread
    · exact ⟨read, stops, .inl begun⟩
    · have notBegun := unsigned.not_begun
      obtain ⟨gap, c, blank, -, -, rfl⟩ := unsigned
      exact ⟨_, stops, .inr ⟨fault, mt Begun.list notBegun, gap, c, rfl, begun_of_blank blank⟩⟩
  · next s next reads =>
    obtain ⟨form, isSetting, passes⟩ := Cursor.isSettingText_of_setting reads
    exact ⟨form, passes.stops_atEnd failed, .inl ⟨[], by rwa [List.append_nil]⟩⟩

theorem parseAll_error {text : String} {e : SettingError} (failed : parseAll text = .error e) :
    ∃ read, (Cursor.start text).Stops read e ∧
      Faulty (fun text => Blank text ∨ IsSettingList text) e.fault read := by
  have written : ¬ Blank text.toList := by
    intro blank
    rw [parseAll_of_blank blank] at failed
    cases failed
  rw [parseAll_of_not_blank written] at failed
  obtain ⟨read, stops, faulty⟩ := Cursor.settings_error failed
  refine ⟨read, stops, ?_⟩
  simpa only [Faulty, begun_blank_or_list_iff] using faulty

/-- What is before the position of an error is the beginning of a text that is accepted, unless it
ends with a character that stands where a sign should be; then the fault is this character. -/
theorem error_located (text : String) :
    (∀ e, parse text = .error e → e.Locates (fun text => ∃ s, parse text = .ok s) text) ∧
      ∀ e, parseAll text = .error e →
        e.Locates (fun text => ∃ list, parseAll text = .ok list) text := by
  refine ⟨fun e failed => ?_, fun e failed => ?_⟩
  · obtain ⟨read, stops, faulty⟩ := parse_error failed
    exact faulty.locates parse_isOk_iff stops
  · obtain ⟨read, stops, faulty⟩ := parseAll_error failed
    exact faulty.locates parseAll_isOk_iff stops

/-- There is more text behind a setting, from byte 4 on; and a letter of two bytes, where a sign
should be, ends at byte 3. -/
theorem error_located_accented :
    parse "+é x" = .error ⟨.unexpectedInput, 4⟩ ∧
      SettingError.Locates ⟨.unexpectedInput, 4⟩ (fun text => ∃ s, parse text = .ok s) "+é x" ∧
      parseAll " é" = .error ⟨.missingSign, 3⟩ ∧
      SettingError.Locates ⟨.missingSign, 3⟩ (fun text => ∃ list, parseAll text = .ok list)
        " é" := by
  have unexpected : parse "+é x" = .error ⟨.unexpectedInput, 4⟩ := by decide +kernel
  have unsigned : parseAll " é" = .error ⟨.missingSign, 3⟩ :=
    (if_neg (by decide)).trans (Cursor.settings_of_error rfl)
  exact ⟨unexpected, (error_located _).1 _ unexpected, unsigned, (error_located _).2 _ unsigned⟩

/-- The letter where a sign should be lies before the position of the error, but no text that is
accepted begins with it. -/
theorem error_behind_fault :
    parse "FOO" = .error ⟨.missingSign, 1⟩ ∧ (¬ ∃ rest s, parse ("F" ++ rest) = .ok s) ∧
      parseAll "FOO" = .error ⟨.missingSign, 1⟩ ∧
      ¬ ∃ rest list, parseAll ("F" ++ rest) = .ok list := by
  have noSign : ∀ status : ToggleStatus, 'F' ≠ status.symbol := by
    rintro (_ | _) <;> decide
  have unsigned : IsUnsigned ['F'] := ⟨[], 'F', .nil, by decide, noSign, rfl⟩
  refine ⟨by decide +kernel, ?_, (if_neg (by decide)).trans (Cursor.settings_of_error rfl), ?_⟩
  · rintro ⟨rest, accepted⟩
    exact unsigned.not_begun (Begun.list ((begun_iff_toList parse_isOk_iff).mp ⟨rest, accepted⟩))
  · rintro ⟨rest, accepted⟩
    exact unsigned.not_begun (begun_blank_or_list_iff.mp
      ((begun_iff_toList parseAll_isOk_iff).mp ⟨rest, accepted⟩))

end FeatureSetting

end MutantSieve
