import MutantSieve.Proofs.Feature.SettingGrammar
import MutantSieve.Proofs.Feature.StepwiseReading
import Mathlib.Logic.Relation

namespace MutantSieve

namespace Cursor

variable {cur next : Cursor} {text : String} {c : Char}

theorem Passes.position_eq (passes : cur.Passes [c] next) :
    next.position = cur.position + c.utf8Size := by
  rw [passes.position, utf8Length_cons]
  rfl

theorem Passes.head?_eq (passes : cur.Passes [c] next) : cur.rest.head? = some c := by
  rw [passes.rest]
  rfl

theorem StandsIn.position_lt_iff (stands : cur.StandsIn text) :
    cur.position < text.utf8ByteSize ↔ cur.rest ≠ [] := by
  obtain ⟨before, position, parts⟩ := stands.splits
  have bytes : text.utf8ByteSize = cur.position + utf8Length cur.rest := by
    rw [parts, String.utf8ByteSize_append, position, ← utf8Length_toList, String.toList_ofList]
  cases here : cur.rest with
  | nil => simp [bytes, here, utf8Length]
  | cons c rest =>
    have := c.utf8Size_pos
    simp only [bytes, here, utf8Length_cons, ne_eq, List.cons_ne_nil, not_false_eq_true, iff_true]
    omega

/-- Reads a value up to its closing bracket. -/
def value (cur : Cursor) : Except SettingError (String × Cursor) :=
  match (cur.span (· ≠ ']')).2.skip? ']' with
  | none => cur.fail .unterminatedValue
  | some closed => .ok (String.ofList (cur.span (· ≠ ']')).1, closed)

end Cursor

namespace SettingReader

/-- A step after which the reader goes on. -/
def Steps (text : String) (many : Bool) (r next : SettingReader) : Prop :=
  r.step text many = some (.on next)

/-- Any number of steps. -/
def Reaches (text : String) (many : Bool) : SettingReader → SettingReader → Prop :=
  Relation.ReflTransGen (Steps text many)

/-- The reader at a cursor and a place. -/
def located (r : SettingReader) (cur : Cursor) (place : Place) : SettingReader :=
  { r with position := cur.position, place }

/-- The reader within a name that begins at a cursor, its letters up to another one read. -/
def spelling (r : SettingReader) (first cur : Cursor) (of : NameOf) : SettingReader :=
  { r with position := first.position, mark := cur.position, place := .letters of }

/-- The reader within a value that was opened at a cursor, its characters up to another one read. -/
def valued (r : SettingReader) (opened cur : Cursor) : SettingReader :=
  { r with position := cur.position, mark := opened.position, place := .value }

/-- Reading ends after some steps. -/
def Ends (text : String) (many : Bool) (r : SettingReader)
    (result : Except SettingError (List FeatureSetting)) : Prop :=
  ∃ last, Reaches text many r last ∧ last.step text many = some (.ends result)

/-- Stepping on from a reader comes to what a reading function comes to: an error, or a value and
the cursor behind it. -/
def ComesTo {α : Type} (text : String) (many : Bool) (r : SettingReader)
    (reached : α → Cursor → SettingReader → Prop) : Except SettingError (α × Cursor) → Prop
  | .error e => Ends text many r (.error e)
  | .ok (a, next) => next.StandsIn text ∧ ∃ g, reached a next g ∧ Reaches text many r g

variable {text : String} {many : Bool} {r g : SettingReader} {cur next last : Cursor}
  {read : List Char}

theorem Reaches.ends {result : Except SettingError (List FeatureSetting)}
    (reaches : Reaches text many r g) (ends : Ends text many g result) :
    Ends text many r result := by
  obtain ⟨last, later, step⟩ := ends
  exact ⟨last, reaches.trans later, step⟩

theorem Reaches.comesTo {reached : α → Cursor → SettingReader → Prop}
    {outcome : Except SettingError (α × Cursor)} (reaches : Reaches text many r g)
    (comesTo : ComesTo text many g reached outcome) : ComesTo text many r reached outcome := by
  cases outcome with
  | error e => exact reaches.ends comesTo
  | ok value =>
    obtain ⟨stands, h, holds, later⟩ := comesTo
    exact ⟨stands, h, holds, reaches.trans later⟩

theorem ends_of_step {result : Except SettingError (List FeatureSetting)}
    (step : r.step text many = some (.ends result)) : Ends text many r result :=
  ⟨r, .refl, step⟩

theorem peek?_eq (stands : cur.StandsIn text) : peek? text cur.position = some cur.rest.head? := by
  rw [peek?, stands.suffix?, Option.map_some]

/-- A loop that takes one character in each round takes all characters of its kind. -/
theorem reaches_of_passes {p : Char → Bool} (reader : Cursor → SettingReader)
    (round : ∀ (cur next : Cursor) (c : Char), cur.StandsIn text → cur.Passes [c] next →
      p c = true → Steps text many (reader cur) (reader next))
    (passes : cur.Passes read last) (kind : ∀ c ∈ read, p c = true) (stands : cur.StandsIn text) :
    Reaches text many (reader cur) (reader last) := by
  induction read generalizing cur with
  | nil =>
    obtain rfl := passes.unique (.refl cur)
    exact .refl
  | cons c read ih =>
    have parts : cur.Passes ([c] ++ read) last := passes
    obtain ⟨next, first, rest⟩ := parts.split
    have steps := round cur next c stands first (kind c (List.mem_cons_self ..))
    have kind := fun d member => kind d (List.mem_cons_of_mem c member)
    exact .head steps (ih rest kind (first.standsIn stands))

theorem step_blanks (r : SettingReader) (many : Bool) (stands : cur.StandsIn text)
    (before : Expected) :
    (r.located cur (.blanks before)).step text many = some (.on <|
      match cur.rest.head? with
      | none => r.located cur (.here before)
      | some c =>
        if Text.isBlank c then (r.located cur (.blanks before)).move c.utf8Size
        else r.located cur (.here before)) := by
  have peeked := peek?_eq stands
  simp only [step, located, peeked]
  cases cur.rest.head? <;> rfl

theorem step_letters (r : SettingReader) (many : Bool) (stands : cur.StandsIn text)
    (first : Cursor) (of : NameOf) :
    (r.spelling first cur of).step text many =
      match cur.rest.head? with
      | none => (r.spelling first cur of).endName text of
      | some c =>
        if isIdentifierChar c then
          some (.on { r.spelling first cur of with mark := cur.position + c.utf8Size })
        else (r.spelling first cur of).endName text of := by
  have peeked := peek?_eq stands
  simp only [step, spelling, peeked]
  cases cur.rest.head? <;> rfl

theorem step_value (r : SettingReader) (many : Bool) (stands : cur.StandsIn text)
    (opened : Cursor) : (r.valued opened cur).step text many =
      match cur.rest.head? with
      | none => some (.ends (opened.fail .unterminatedValue))
      | some c =>
        if c = ']' then (Text.between? text opened.position cur.position).map fun value =>
          .on { (r.valued opened cur).move c.utf8Size with
            entries := r.entries.push (r.name, value), place := .parameters }
        else some (.on ((r.valued opened cur).move c.utf8Size)) := by
  have peeked := peek?_eq stands
  simp only [step, valued, peeked]
  cases cur.rest.head? with
  | none => rfl
  | some c =>
    by_cases closing : c = ']'
    · subst closing
      cases Text.between? text opened.position cur.position <;> rfl
    · simp [closing]

theorem consume?_eq (r : SettingReader) (place : Place) {literal : String} {c : Char}
    (single : literal.toList = [c]) (stands : cur.StandsIn text) :
    (r.located cur place).consume? text literal =
      some ((cur.skip? c).map fun next => r.located next place) := by
  have bytes : literal.utf8ByteSize = c.utf8Size := by
    rw [← utf8Length_toList, single, utf8Length_cons]
    rfl
  have suffix := stands.suffix?
  simp only [consume?, located, suffix, Option.map_some, single, bytes, move]
  unfold Cursor.skip?
  cases cur.rest with
  | nil => rfl
  | cons d rest =>
    by_cases same : d = c
    · subst same
      simp
    · simp [same, Ne.symm same]

theorem step_here (r : SettingReader) (many : Bool) (expected : Expected) :
    (r.located cur (.here expected)).step text many =
      (r.located cur (.here expected)).expect text many expected := rfl

theorem step_sign (r : SettingReader) (many : Bool) (stands : cur.StandsIn text) :
    (r.located cur (.here .sign)).step text many = some (
      match cur.rest with
      | [] => .ends (cur.fail .missingSign)
      | c :: rest =>
        let behind : Cursor := ⟨cur.position + c.utf8Size, rest⟩
        if c = '+' then
          .on ({ r with status := .activate }.located behind (.blanks (.name .feature)))
        else if c = '-' then
          .on ({ r with status := .deactivate }.located behind (.blanks (.name .feature)))
        else .on (r.located behind .unsigned)) := by
  have peeked := peek?_eq stands
  rw [step_here]
  simp only [expect, located, peeked]
  cases cur.rest with
  | nil => rfl
  | cons c rest =>
    by_cases plus : c = '+'
    · simp [plus]
    · by_cases minus : c = '-'
      · simp [minus]
      · simp [plus, minus]

theorem step_name (r : SettingReader) (many : Bool) (stands : cur.StandsIn text) (of : NameOf) :
    (r.located cur (.here (.name of))).step text many = some (.on (r.spelling cur cur of)) := by
  rw [step_here]
  simp only [expect, located, stands.suffix?]
  rfl

theorem step_opening (r : SettingReader) (many : Bool) (stands : cur.StandsIn text) :
    (r.located cur (.here .opening)).step text many = some (.on <|
      match cur.skip? '(' with
      | none => (r.located cur (.here .opening)).complete many ∅
      | some opened => { r with entries := #[] }.located opened .parameters) := by
  have single : "(".toList = ['('] := rfl
  rw [step_here, expect, consume?_eq r _ single stands]
  cases cur.skip? '(' <;> rfl

theorem step_closing (r : SettingReader) (many : Bool) (stands : cur.StandsIn text) :
    (r.located cur (.here .closing)).step text many = some (.on <|
      match cur.skip? ')' with
      | none => r.located cur (.blanks (.name .parameter))
      | some closed =>
        (r.located closed (.here .closing)).complete many (.ofEntries r.entries.toList)) := by
  have single : ")".toList = [')'] := rfl
  rw [step_here, expect, consume?_eq r _ single stands]
  cases cur.skip? ')' <;> rfl

theorem step_bracket (r : SettingReader) (many : Bool) (stands : cur.StandsIn text) :
    (r.located cur (.here .bracket)).step text many = some (
      match cur.skip? '[' with
      | none => .ends (cur.fail .missingBracket)
      | some opened => .on (r.valued opened opened)) := by
  have single : "[".toList = ['['] := rfl
  rw [step_here, expect, consume?_eq r _ single stands]
  cases cur.skip? '[' <;> rfl

theorem step_separator (r : SettingReader) (many : Bool) (stands : cur.StandsIn text) :
    (r.located cur (.here .separator)).step text many = some (.on <|
      match cur.skip? ',' with
      | none => r.located cur (.here .ending)
      | some separated => r.located separated .settings) := by
  have single : ",".toList = [','] := rfl
  rw [step_here, expect, consume?_eq r _ single stands]
  cases cur.skip? ',' <;> rfl

theorem step_ending (r : SettingReader) (many : Bool) (stands : cur.StandsIn text) :
    (r.located cur (.here .ending)).step text many = some (.ends <|
      if cur.rest.isEmpty then .ok r.settings.toList else cur.fail .unexpectedInput) := by
  rw [step_here, expect]
  by_cases ended : cur.rest = []
  · have last : ¬ cur.position < text.utf8ByteSize := by rwa [stands.position_lt_iff, not_not]
    rw [if_pos (List.isEmpty_iff.mpr ended)]
    exact if_neg last
  · have more : cur.position < text.utf8ByteSize := stands.position_lt_iff.mpr ended
    rw [if_neg (mt List.isEmpty_iff.mp ended)]
    exact if_pos more

theorem reaches_skipBlanks (r : SettingReader) (many : Bool) (stands : cur.StandsIn text)
    (before : Expected) : cur.skipBlanks.StandsIn text ∧
      Reaches text many (r.located cur (.blanks before))
        (r.located cur.skipBlanks (.here before)) := by
  obtain ⟨read, passes, blank, outside⟩ := cur.exists_passes_skipBlanks
  have behind := passes.standsIn stands
  have loop : Reaches text many (r.located cur (.blanks before))
      (r.located cur.skipBlanks (.blanks before)) := by
    refine reaches_of_passes (fun cur => r.located cur (.blanks before)) ?_ passes blank stands
    intro cur next c stands passes blank
    rw [Steps, step_blanks r many stands, passes.head?_eq]
    simp only [blank, if_true, located, move, passes.position_eq]
  refine ⟨behind, loop.tail ?_⟩
  rw [Steps, step_blanks r many behind]
  cases here : cur.skipBlanks.rest.head? with
  | none => rfl
  | some c => simp only [outside c here, Bool.false_eq_true, if_false]

theorem endName_spelling (r : SettingReader) (stands : cur.StandsIn text) (of : NameOf)
    (passes : cur.Passes read last) :
    (r.spelling cur last of).endName text of = some (
      if read.isEmpty then .ends (last.fail .missingIdentifier)
      else .on ({ r with mark := last.position }.take (String.ofList read) of)) := by
  cases read with
  | nil =>
    obtain rfl := passes.unique (.refl cur)
    exact if_neg (lt_irrefl _)
  | cons c letters =>
    have further : cur.position < last.position := by
      have := c.utf8Size_pos
      rw [passes.position, utf8Length_cons]
      omega
    simp only [endName, spelling, if_pos further, passes.between? stands]
    cases of with
    | feature => rfl
    | parameter => rfl

/-- The letters of a name are passed, and with the last one the name ends. -/
theorem reaches_letters (r : SettingReader) (many : Bool) (stands : cur.StandsIn text) (of : NameOf)
    (spanned : cur.span isIdentifierChar = (read, last)) :
    Reaches text many (r.spelling cur cur of) (r.spelling cur last of) ∧
      (r.spelling cur last of).step text many = (r.spelling cur last of).endName text of := by
  obtain ⟨passes, kind, outside⟩ := Cursor.span_eq_iff.mp spanned
  constructor
  · refine reaches_of_passes (fun next => r.spelling cur next of) ?_ passes kind stands
    intro reached next c stands passes identifier
    rw [Steps, step_letters r many stands, passes.head?_eq]
    simp only [identifier, if_true, spelling, passes.position_eq]
  · rw [step_letters r many (passes.standsIn stands)]
    cases here : last.rest.head? with
    | none => rfl
    | some c => simp only [outside c here, Bool.false_eq_true, if_false]

theorem comesTo_sign (r : SettingReader) (many : Bool) (stands : cur.StandsIn text) :
    ComesTo text many (r.located cur (.blanks .sign))
      (fun status next g => g = { r with status }.located next (.blanks (.name .feature)))
      cur.sign := by
  obtain ⟨behind, blanks⟩ := reaches_skipBlanks r many stands .sign
  refine blanks.comesTo ?_
  have step := step_sign r many behind
  unfold Cursor.sign
  dsimp only
  split
  · next here =>
    rw [here] at step
    exact ends_of_step step
  · next c rest here =>
    have passes : cur.skipBlanks.Passes [c] ⟨cur.skipBlanks.position + c.utf8Size, rest⟩ :=
      ⟨here, by simp [utf8Length]⟩
    rw [here] at step
    dsimp only at step
    split
    · next plus =>
      rw [if_pos plus] at step
      exact ⟨passes.standsIn behind, _, rfl, .single step⟩
    · next notPlus =>
      rw [if_neg notPlus] at step
      split
      · next minus =>
        rw [if_pos minus] at step
        exact ⟨passes.standsIn behind, _, rfl, .single step⟩
      · next notMinus =>
        rw [if_neg notMinus] at step
        exact Reaches.ends (.single step) (ends_of_step rfl)

theorem comesTo_identifier (r : SettingReader) (many : Bool) (stands : cur.StandsIn text)
    (of : NameOf) : ComesTo text many (r.located cur (.blanks (.name of)))
      (fun name next g => g = { r with mark := next.position }.take name of) cur.identifier := by
  obtain ⟨behind, blanks⟩ := reaches_skipBlanks r many stands (.name of)
  have begins := step_name r many behind of
  cases spanned : cur.skipBlanks.span isIdentifierChar with
  | mk letters last =>
    obtain ⟨loop, step⟩ := reaches_letters r many behind of spanned
    obtain ⟨passes, _, _⟩ := Cursor.span_eq_iff.mp spanned
    rw [endName_spelling r behind of passes] at step
    refine Reaches.comesTo ((blanks.tail begins).trans loop) ?_
    unfold Cursor.identifier
    rw [spanned]
    dsimp only
    split
    · next empty =>
      rw [if_pos empty] at step
      exact ends_of_step step
    · next some =>
      rw [if_neg some] at step
      exact ⟨passes.standsIn behind, _, rfl, .single step⟩

theorem comesTo_value (r : SettingReader) (many : Bool) (stands : cur.StandsIn text) :
    ComesTo text many (r.valued cur cur)
      (fun value next g => g = { r with
        mark := cur.position
        entries := r.entries.push (r.name, value) }.located next .parameters)
      cur.value := by
  cases spanned : cur.span (· ≠ ']') with
  | mk value last =>
    obtain ⟨passes, kind, outside⟩ := Cursor.span_eq_iff.mp spanned
    have behind := passes.standsIn stands
    have loop : Reaches text many (r.valued cur cur) (r.valued cur last) := by
      refine reaches_of_passes (r.valued cur) ?_ passes kind stands
      intro reached next c stands passes inside
      rw [Steps, step_value r many stands cur, passes.head?_eq]
      simp only [of_decide_eq_true inside, if_false, valued, move, passes.position_eq]
    refine Reaches.comesTo loop ?_
    have step := step_value r many behind cur
    unfold Cursor.value
    rw [spanned]
    dsimp only
    cases closing : last.skip? ']' with
    | none =>
      have ended : last.rest.head? = none := by
        refine Option.eq_none_iff_forall_ne_some.mpr fun c here => ?_
        have bracket : c = ']' := by simpa using outside c here
        exact Cursor.skip?_eq_none_iff.mp closing (bracket ▸ here)
      rw [ended] at step
      exact ends_of_step step
    | some closed =>
      have toClosed := Cursor.skip?_eq_some_iff.mp closing
      rw [toClosed.head?_eq] at step
      refine ⟨toClosed.standsIn behind, _, rfl, .single ?_⟩
      rw [Steps, step]
      simp only [if_true, passes.between? stands, valued, move, located, toClosed.position_eq,
        Option.map_some]

theorem comesTo_parameter (r : SettingReader) (many : Bool) (stands : cur.StandsIn text) :
    ComesTo text many (r.located cur (.blanks (.name .parameter)))
      (fun entry next g => ∃ mark, g = { r with
        mark
        name := entry.1
        entries := r.entries.push entry }.located next .parameters)
      cur.parameter := by
  have comesTo := comesTo_identifier r many stands .parameter
  unfold Cursor.parameter
  cases nameRead : cur.identifier with
  | error e => rwa [nameRead] at comesTo
  | ok read =>
    obtain ⟨name, named⟩ := read
    rw [nameRead] at comesTo
    obtain ⟨stands, _, rfl, reached⟩ := comesTo
    obtain ⟨behind, blanks⟩ :=
      reaches_skipBlanks { r with mark := named.position, name } many stands .bracket
    refine Reaches.comesTo (reached.trans blanks) ?_
    have step := step_bracket { r with mark := named.position, name } many behind
    dsimp only
    cases opening : named.skipBlanks.skip? '[' with
    | none =>
      rw [opening] at step
      exact ends_of_step step
    | some opened =>
      rw [opening] at step
      have standsOpened := (Cursor.skip?_eq_some_iff.mp opening).standsIn behind
      have value := comesTo_value { r with mark := opened.position, name } many standsOpened
      refine Reaches.comesTo (.single step) ?_
      unfold Cursor.value at value
      dsimp only
      cases closing : (opened.span (· ≠ ']')).2.skip? ']' with
      | none =>
        rw [closing] at value
        exact value
      | some closed =>
        rw [closing] at value
        obtain ⟨stands, _, rfl, reached⟩ := value
        exact ⟨stands, _, ⟨opened.position, rfl⟩, reached⟩

/-- A setting has been read up to a cursor. -/
def HasRead (many : Bool) (r : SettingReader) (s : FeatureSetting) (next : Cursor)
    (g : SettingReader) : Prop :=
  ∃ h : SettingReader, h.settings = r.settings.push s ∧
    g = h.located next (.blanks (if many then .separator else .ending))

theorem hasRead_complete (r : SettingReader) (many : Bool) (cur : Cursor) (place : Place)
    (parameters : Parameters) : HasRead many r ⟨r.feature, r.status, parameters⟩ cur
      ((r.located cur place).complete many parameters) :=
  ⟨(r.located cur place).complete many parameters, rfl, rfl⟩

theorem reaches_closing (r : SettingReader) (many : Bool) (stands : cur.StandsIn text) :
    cur.skipBlanks.StandsIn text ∧ Reaches text many (r.located cur .parameters)
      (match cur.skipBlanks.skip? ')' with
      | none => r.located cur.skipBlanks (.blanks (.name .parameter))
      | some closed =>
        (r.located closed (.here .closing)).complete many (.ofEntries r.entries.toList)) := by
  obtain ⟨behind, blanks⟩ := reaches_skipBlanks r many stands .closing
  have begins : Steps text many (r.located cur .parameters)
      (r.located cur (.blanks .closing)) := rfl
  exact ⟨behind, (blanks.head begins).tail (step_closing r many behind)⟩

theorem comesTo_parameters (r : SettingReader) (many : Bool) (before : Array (String × String))
    (stands : cur.StandsIn text) :
    ComesTo text many ({ r with entries := before }.located cur .parameters)
      (fun parameters => HasRead many r ⟨r.feature, r.status, parameters⟩)
      (cur.parameters before) := by
  -- Each round is another `r`: it leaves behind a name and a mark, which no later round looks at.
  induction cur, before using Cursor.parameters.induct generalizing r with
  | case1 cur before closed closing =>
    obtain ⟨behind, reached⟩ := reaches_closing { r with entries := before } many stands
    rw [closing] at reached
    rw [Cursor.parameters_of_closed closing]
    have done := hasRead_complete { r with entries := before } many closed (.here .closing)
      (.ofEntries before.toList)
    exact ⟨(Cursor.skip?_eq_some_iff.mp closing).standsIn behind, _, done, reached⟩
  | case2 cur before notClosed e failed =>
    obtain ⟨behind, reached⟩ := reaches_closing { r with entries := before } many stands
    have comesTo := comesTo_parameter { r with entries := before } many behind
    rw [notClosed] at reached
    rw [failed] at comesTo
    rw [Cursor.parameters_of_error notClosed failed]
    exact reached.ends comesTo
  | case3 cur before notClosed entry next read ih =>
    obtain ⟨behind, reached⟩ := reaches_closing { r with entries := before } many stands
    have comesTo := comesTo_parameter { r with entries := before } many behind
    rw [notClosed] at reached
    rw [read] at comesTo
    rw [Cursor.parameters_of_parameter notClosed read]
    obtain ⟨stands, _, ⟨mark, rfl⟩, more⟩ := comesTo
    exact Reaches.comesTo (reached.trans more) (ih { r with mark, name := entry.1 } stands)

/-- A setting is read; what follows it is up to whether it is one of many. -/
theorem comesTo_setting (r : SettingReader) (many : Bool) (stands : cur.StandsIn text) :
    ComesTo text many (r.located cur (.blanks .sign)) (HasRead many r) cur.setting := by
  have sign := comesTo_sign r many stands
  unfold Cursor.setting
  cases signRead : cur.sign with
  | error e => rwa [signRead] at sign
  | ok read =>
    obtain ⟨status, signed⟩ := read
    rw [signRead] at sign
    obtain ⟨standsSigned, _, rfl, reachedSigned⟩ := sign
    refine reachedSigned.comesTo ?_
    have name := comesTo_identifier { r with status } many standsSigned .feature
    dsimp only
    cases nameRead : signed.identifier with
    | error e => rwa [nameRead] at name
    | ok read =>
      obtain ⟨feature, named⟩ := read
      rw [nameRead] at name
      obtain ⟨standsNamed, _, rfl, reachedNamed⟩ := name
      let titled : SettingReader := { r with status, feature, mark := named.position }
      obtain ⟨behind, blanks⟩ := reaches_skipBlanks titled many standsNamed .opening
      refine Reaches.comesTo (reachedNamed.trans blanks) ?_
      have step := step_opening titled many behind
      dsimp only
      cases opening : named.skipBlanks.skip? '(' with
      | none =>
        rw [opening] at step
        have done := hasRead_complete titled many named.skipBlanks (.here .opening) ∅
        exact ⟨behind, _, done, .single step⟩
      | some opened =>
        rw [opening] at step
        have standsOpened := (Cursor.skip?_eq_some_iff.mp opening).standsIn behind
        have parameters := comesTo_parameters titled many #[] standsOpened
        refine Reaches.comesTo (.single step) ?_
        dsimp only
        cases parametersRead : opened.parameters #[] with
        | error e => rwa [parametersRead] at parameters
        | ok read => rwa [parametersRead] at parameters

theorem ends_atEnd (r : SettingReader) (many : Bool) (behind : cur.skipBlanks.StandsIn text) :
    Ends text many (r.located cur.skipBlanks (.here .ending))
      (cur.atEnd.map fun _ => r.settings.toList) := by
  refine ends_of_step ?_
  rw [step_ending r many behind]
  unfold Cursor.atEnd
  split <;> rfl

/-- A setting of many is read, and goes on with the next one or at the end of the text. -/
theorem reaches_separator (r : SettingReader) (stands : cur.StandsIn text) {s : FeatureSetting}
    (read : cur.setting = .ok (s, next)) :
    next.skipBlanks.StandsIn text ∧ ∃ h : SettingReader, h.settings = r.settings.push s ∧
      Reaches text true (r.located cur .settings)
        (match next.skipBlanks.skip? ',' with
        | none => h.located next.skipBlanks (.here .ending)
        | some separated => h.located separated .settings) := by
  have setting := comesTo_setting r true stands
  rw [read] at setting
  obtain ⟨standsNext, _, ⟨h, pushed, rfl⟩, reached⟩ := setting
  obtain ⟨behind, blanks⟩ := reaches_skipBlanks h true standsNext .separator
  have begins : Steps text true (r.located cur .settings) (r.located cur (.blanks .sign)) := rfl
  refine ⟨behind, h, pushed, ?_⟩
  exact (reached.head begins).trans (blanks.tail (step_separator h true behind))

/-- Settings behind those that the reader has. -/
theorem ends_settings (r : SettingReader) (stands : cur.StandsIn text) :
    Ends text true (r.located cur .settings) (cur.settings.map (r.settings.toList ++ ·)) := by
  induction cur using Cursor.settings.induct generalizing r with
  | case1 cur e failed =>
    have setting := comesTo_setting r true stands
    have begins : Steps text true (r.located cur .settings) (r.located cur (.blanks .sign)) := rfl
    rw [failed] at setting
    rw [Cursor.settings_of_error failed]
    exact Reaches.ends (.single begins) setting
  | case2 cur s next read separated comma ih =>
    obtain ⟨behind, h, pushed, reached⟩ := reaches_separator r stands read
    rw [comma] at reached
    have others := ih h ((Cursor.skip?_eq_some_iff.mp comma).standsIn behind)
    have same : cur.settings.map (r.settings.toList ++ ·) =
        separated.settings.map (h.settings.toList ++ ·) := by
      rw [Cursor.settings_of_comma read comma, pushed, Array.toList_push]
      cases separated.settings with
      | error e => rfl
      | ok others => simp [Except.map]
    rw [same]
    exact reached.ends others
  | case3 cur s next read last =>
    obtain ⟨behind, h, pushed, reached⟩ := reaches_separator r stands read
    rw [last] at reached
    have same : cur.settings.map (r.settings.toList ++ ·) =
        next.atEnd.map fun _ => h.settings.toList := by
      rw [Cursor.settings_of_last read last, pushed, Array.toList_push]
      cases next.atEnd with
      | error e => rfl
      | ok _ => rfl
    rw [same]
    exact reached.ends (ends_atEnd h true behind)

end SettingReader

namespace Cursor

variable {cur : Cursor}

theorem setting_skipBlanks : cur.skipBlanks.setting = cur.setting := by
  obtain ⟨_, _, _, outside⟩ := cur.exists_passes_skipBlanks
  unfold setting sign
  rw [skipBlanks_of_outside outside]

theorem settings_skipBlanks : cur.skipBlanks.settings = cur.settings := by
  cases read : cur.setting with
  | error e => rw [settings_of_error read, settings_of_error (setting_skipBlanks.trans read)]
  | ok first =>
    obtain ⟨s, next⟩ := first
    have read' := setting_skipBlanks.trans read
    cases comma : next.skipBlanks.skip? ',' with
    | none => rw [settings_of_last read comma, settings_of_last read' comma]
    | some separated => rw [settings_of_comma read comma, settings_of_comma read' comma]

end Cursor

namespace SettingReader

/-- The reader of one setting ends with what reading the setting comes to. -/
theorem ends_parse (text : String) :
    Ends text false (initial false) ((FeatureSetting.parse text).map fun s => [s]) := by
  have stands := Cursor.standsIn_start text
  have setting := comesTo_setting (initial false) false stands
  unfold FeatureSetting.parse
  cases read : (Cursor.start text).setting with
  | error e => rwa [read] at setting
  | ok first =>
    obtain ⟨s, next⟩ := first
    rw [read] at setting
    obtain ⟨standsNext, _, ⟨h, pushed, rfl⟩, reached⟩ := setting
    obtain ⟨behind, blanks⟩ := reaches_skipBlanks h false standsNext .ending
    have same : (next.atEnd.map fun _ => s).map (fun s => [s]) =
        next.atEnd.map fun _ => h.settings.toList := by
      rw [pushed]
      cases next.atEnd with
      | error e => rfl
      | ok _ => rfl
    dsimp only
    rw [same]
    exact Reaches.ends (reached.trans blanks) (ends_atEnd h false behind)

/-- The reader of many settings ends with what reading them comes to. -/
theorem ends_parseAll (text : String) :
    Ends text true (initial true) (FeatureSetting.parseAll text) := by
  obtain ⟨behind, blanks⟩ :=
    reaches_skipBlanks (initial true) true (Cursor.standsIn_start text) .beginning
  have peeked := peek?_eq behind
  refine blanks.ends ?_
  unfold FeatureSetting.parseAll
  cases here : (Cursor.start text).skipBlanks.rest with
  | nil =>
    rw [here] at peeked
    refine ends_of_step ?_
    simp only [step, located, expect, peeked]
    rfl
  | cons c rest =>
    rw [here] at peeked
    have begins : Steps text true
        ((initial true).located (Cursor.start text).skipBlanks (.here .beginning))
        ((initial true).located (Cursor.start text).skipBlanks .settings) := by
      simp only [Steps, step, located, expect, peeked]
      rfl
    have settings := ends_settings (initial true) behind
    rw [Cursor.settings_skipBlanks] at settings
    have same : (Cursor.start text).settings.map ((initial true).settings.toList ++ ·) =
        (Cursor.start text).settings := by
      cases (Cursor.start text).settings <;> rfl
    rw [same] at settings
    exact Reaches.ends (.single begins) settings

/-- Running on comes to the result that there is. -/
theorem Ends.run_eq {result result' : Except SettingError (List FeatureSetting)} {n : Nat}
    (ends : Ends text many r result) (run : r.run text many n = some (.ends result')) :
    result' = result := by
  obtain ⟨last, reaches, step⟩ := ends
  induction reaches using Relation.ReflTransGen.head_induction_on generalizing n with
  | refl =>
    cases n with
    | zero => cases run
    | succ n =>
      rw [SettingReader.run, step] at run
      exact (Turn.ends.inj (Option.some.inj run)).symm
  | head first _ ih =>
    cases n with
    | zero => cases run
    | succ n =>
      have first : _ = some (Turn.on _) := first
      rw [SettingReader.run, first] at run
      exact ih run

/-- Reading a text ends after at most eleven steps for each byte of it and for its end. -/
theorem Ends.run_initial {result : Except SettingError (List FeatureSetting)}
    (ends : Ends text many (initial many) result) :
    (initial many).run text many (11 * (text.utf8ByteSize + 1)) = some (.ends result) := by
  have enough : (initial many).budget text < 11 * (text.utf8ByteSize + 1) := by
    have := (initial many).place.rank_le
    unfold budget
    omega
  obtain ⟨result', run⟩ := sound_initial.run_ends enough
  rwa [ends.run_eq run] at run

end SettingReader

namespace FeatureSetting

/-- Wherever the reader of a text comes to, its step is not stuck: no part of the text is asked for
that does not begin and end between two characters. Its position is such an offset too, and never
goes back. A reader at a place that it was at before is in another round of a loop, and has moved
on; within a name, where the position stays at the first letter, the end of the letters has. It
ends after at most eleven steps for each byte, with what reading the text comes to. -/
theorem positions_advance (text : String) :
    (∀ (many : Bool) (n : Nat) (r : SettingReader),
      (SettingReader.initial many).run text many n = some (.on r) →
        (r.step text many).isSome = true ∧ Text.IsBoundary text r.position ∧
        r.position ≤ text.utf8ByteSize ∧
        ∀ (m : Nat) (later : SettingReader), r.run text many (m + 1) = some (.on later) →
          r.position ≤ later.position ∧
          (r.place = later.place → (∀ of, r.place ≠ .letters of) → r.position < later.position) ∧
          ∀ of, r.place = .letters of → later.place = .letters of → r.mark < later.mark) ∧
    (SettingReader.initial false).run text false (11 * (text.utf8ByteSize + 1)) =
      some (.ends ((parse text).map fun s => [s])) ∧
    (SettingReader.initial true).run text true (11 * (text.utf8ByteSize + 1)) =
      some (.ends (parseAll text)) := by
  refine ⟨fun many n r run => ?_, (SettingReader.ends_parse text).run_initial,
    (SettingReader.ends_parseAll text).run_initial⟩
  have sound := SettingReader.sound_initial.run run
  refine ⟨sound.step_isSome many, sound.position, sound.position.le, fun m later more => ?_⟩
  have follows := sound.follows_run more
  refine ⟨follows.position_le, fun again other => ?_, fun of letters lettersAgain => ?_⟩
  · have further := follows.advances.reach_lt again
    rwa [SettingReader.reach_of_not_letters other,
      SettingReader.reach_of_not_letters (again ▸ other)] at further
  · have further := follows.advances.reach_lt (letters.trans lettersAgain.symm)
    rwa [SettingReader.reach, SettingReader.reach, letters, lettersAgain] at further

/-- A round over a letter of two bytes, in the value of a parameter and in its name. -/
theorem positions_advance_accented :
    (∃ r later : SettingReader,
      (SettingReader.initial false).run "+é(ß[ä,])" false 17 = some (.on r) ∧
      r.run "+é(ß[ä,])" false 1 = some (.on later) ∧ r.place = .value ∧ later.place = .value ∧
      Text.IsBoundary "+é(ß[ä,])" r.position ∧ ¬ Text.IsBoundary "+é(ß[ä,])" (r.position + 1) ∧
      r.position < later.position) ∧
    ∃ r later : SettingReader,
      (SettingReader.initial false).run "+é(ß[ä,])" false 13 = some (.on r) ∧
      r.run "+é(ß[ä,])" false 1 = some (.on later) ∧ r.place = .letters .parameter ∧
      later.place = .letters .parameter ∧ r.position ≤ later.position ∧ r.mark < later.mark := by
  let inValue (position : Nat) : SettingReader :=
    ⟨.value, position, 7, .activate, "é", "ß", #[], #[]⟩
  let inName (mark : Nat) : SettingReader :=
    ⟨.letters .parameter, 4, mark, .activate, "é", "", #[], #[]⟩
  have valueBegins : (SettingReader.initial false).run "+é(ß[ä,])" false 17 =
      some (.on (inValue 7)) := by decide +kernel
  have valueRound : (inValue 7).run "+é(ß[ä,])" false 1 = some (.on (inValue 9)) := by
    decide +kernel
  have nameBegins : (SettingReader.initial false).run "+é(ß[ä,])" false 13 =
      some (.on (inName 4)) := by decide +kernel
  have nameRound : (inName 4).run "+é(ß[ä,])" false 1 = some (.on (inName 6)) := by
    decide +kernel
  obtain ⟨_, boundary, _, value⟩ := (positions_advance _).1 _ _ _ valueBegins
  obtain ⟨_, _, _, name⟩ := (positions_advance _).1 _ _ _ nameBegins
  obtain ⟨_, further, _⟩ := value 0 _ valueRound
  obtain ⟨ordered, _, longer⟩ := name 0 _ nameRound
  refine ⟨⟨_, _, valueBegins, valueRound, rfl, rfl, boundary, by decide +kernel, ?_⟩,
    ⟨_, _, nameBegins, nameRound, rfl, rfl, ordered, longer .parameter rfl rfl⟩⟩
  exact further rfl fun of letters => by cases letters

end FeatureSetting

end MutantSieve
