import MutantSieve.Bytecode.Instruction
import MutantSieve.Proofs.Text.Reading

namespace MutantSieve.Descriptor

/-- The letters that stand for a primitive type each. -/
def primitiveLetters : List Char := ['B', 'C', 'D', 'F', 'I', 'J', 'S', 'Z']

/-- A type: a letter, or a class name between its delimiters, behind any number of brackets. What
passes for a class name is left open. -/
inductive IsType (isName : List Char → Prop) : List Char → Prop
  | primitive {c} : c ∈ primitiveLetters → IsType isName [c]
  | object {name} : isName name → IsType isName ('L' :: (name ++ [';']))
  | array {element} : IsType isName element → IsType isName ('[' :: element)

/-- A descriptor starts with types in parentheses, and then the rest follows. -/
structure Declares (isName : List Char → Prop) (types : List (List Char)) (rest : List Char)
    (descriptor : String) : Prop where
  text : descriptor.toList = '(' :: (types.flatten ++ ')' :: rest)
  isType : ∀ t ∈ types, IsType isName t

/-- A text that a class name may be where the parameters are counted. -/
def IsUndelimited (name : List Char) : Prop := ';' ∉ name ∧ ')' ∉ name

/-- Parameters in parentheses, and nothing behind them. -/
def enclose (types : List (List Char)) : String := String.ofList ('(' :: (types.flatten ++ [')']))

/-- What has been read of a type when a reader stands at a place, brackets apart. -/
def Place.opening : Place → List Char
  | between => []
  | element => ['[']
  | className => ['L']

variable {isName isName' : List Char → Prop} {t t' name text text' part rest rest' : List Char}
  {types types' : List (List Char)} {descriptor : String} {place : Place} {n : Nat}

theorem isPrimitive_iff {c : Char} : isPrimitive c = true ↔ c ∈ primitiveLetters := by
  simp [isPrimitive, primitiveLetters, or_assoc]

theorem IsType.exists_cons (isType : IsType isName t) : ∃ c u, t = c :: u := by
  cases isType <;> exact ⟨_, _, rfl⟩

theorem isType_letter_iff {c : Char} (letter : c ∈ primitiveLetters) :
    IsType isName (c :: t) ↔ t = [] := by
  refine ⟨fun isType => ?_, fun nothing => nothing ▸ .primitive letter⟩
  cases isType with
  | primitive => rfl
  | object | array => exact absurd letter (by decide)

theorem isType_class_iff : IsType isName ('L' :: t) ↔ ∃ name, isName name ∧ t = name ++ [';'] := by
  refine ⟨fun isType => ?_, fun ⟨name, named, same⟩ => same ▸ .object named⟩
  cases isType with
  | primitive letter => exact absurd letter (by decide)
  | @object name named => exact ⟨name, named, rfl⟩

theorem isType_bracket_iff : IsType isName ('[' :: t) ↔ IsType isName t := by
  refine ⟨fun isType => ?_, .array⟩
  cases isType with
  | primitive letter => exact absurd letter (by decide)
  | array element => exact element

theorem not_isType_closing : ¬IsType isName (')' :: t) := by
  intro isType
  cases isType with
  | primitive letter => exact absurd letter (by decide)

theorem IsType.mono (isType : IsType isName t)
    (passes : ∀ name, isName name → name ⊆ t → isName' name) : IsType isName' t := by
  induction isType with
  | primitive letter => exact .primitive letter
  | object named =>
    exact .object (passes _ named fun c member =>
      List.mem_cons_of_mem _ (List.mem_append_left _ member))
  | array _ ih =>
    exact .array (ih fun name named within =>
      passes name named fun c member => List.mem_cons_of_mem _ (within member))

theorem IsType.closing_not_mem (isType : IsType IsUndelimited t) : ')' ∉ t := by
  induction isType with
  | primitive letter =>
    intro member
    obtain rfl := List.mem_singleton.mp member
    exact absurd letter (by decide)
  | object named => simpa using named.2
  | array _ ih => simpa using ih

/-- No type is the beginning of another one. -/
theorem IsType.unique (closed : ∀ name, isName name → ';' ∉ name) (isType : IsType isName t)
    (isType' : IsType isName t') (same : t ++ rest = t' ++ rest') : t = t' ∧ rest = rest' := by
  induction isType generalizing t' with
  | primitive letter =>
    obtain ⟨c, u, rfl⟩ := isType'.exists_cons
    obtain ⟨rfl, after⟩ := List.cons.inj same
    obtain rfl := (isType_letter_iff letter).mp isType'
    exact ⟨rfl, after⟩
  | @object name named =>
    obtain ⟨c, u, rfl⟩ := isType'.exists_cons
    obtain ⟨rfl, -⟩ := List.cons.inj same
    obtain ⟨name', named', rfl⟩ := isType_class_iff.mp isType'
    have ends : name ++ ';' :: rest = name' ++ ';' :: rest' := by simpa using same
    obtain ⟨rfl, after⟩ := Text.upTo_unique (closed name named) (closed name' named') ends
    exact ⟨rfl, after⟩
  | array _ ih =>
    obtain ⟨c, u, rfl⟩ := isType'.exists_cons
    obtain ⟨rfl, elements⟩ := List.cons.inj same
    obtain ⟨rfl, after⟩ := ih (isType_bracket_iff.mp isType') elements
    exact ⟨rfl, after⟩

theorem IsType.closing_ne (isType : IsType isName t) : ')' :: rest ≠ t ++ text := by
  intro same
  obtain ⟨c, u, rfl⟩ := isType.exists_cons
  obtain ⟨rfl, -⟩ := List.cons.inj same
  exact not_isType_closing isType

/-- A closing parenthesis shows where a list of types ends. -/
theorem flatten_unique (closed : ∀ name, isName name → ';' ∉ name)
    (isType : ∀ t ∈ types, IsType isName t) (isType' : ∀ t ∈ types', IsType isName t)
    (same : types.flatten ++ ')' :: rest = types'.flatten ++ ')' :: rest') :
    types = types' ∧ rest = rest' := by
  induction types generalizing types' with
  | nil =>
    cases types' with
    | nil => exact ⟨rfl, (List.cons.inj same).2⟩
    | cons t' types' =>
      rw [List.flatten_cons, List.append_assoc] at same
      exact absurd same (isType' t' (List.mem_cons_self ..)).closing_ne
  | cons t types ih =>
    obtain ⟨first, later⟩ := List.forall_mem_cons.mp isType
    cases types' with
    | nil =>
      rw [List.flatten_cons, List.append_assoc] at same
      exact absurd same.symm first.closing_ne
    | cons t' types' =>
      obtain ⟨first', later'⟩ := List.forall_mem_cons.mp isType'
      rw [List.flatten_cons, List.flatten_cons, List.append_assoc, List.append_assoc] at same
      obtain ⟨rfl, others⟩ := first.unique closed first' same
      obtain ⟨rfl, after⟩ := ih later later' others
      exact ⟨rfl, after⟩

theorem Declares.unique (closed : ∀ name, isName name → ';' ∉ name)
    (declares : Declares isName types rest descriptor)
    (declares' : Declares isName types' rest' descriptor) : types = types' ∧ rest = rest' := by
  have same := declares.text.symm.trans declares'.text
  exact flatten_unique closed declares.isType declares'.isType (List.cons.inj same).2

theorem Declares.mono (declares : Declares isName types rest descriptor)
    (passes : ∀ t ∈ types, IsType isName t → IsType isName' t) :
    Declares isName' types rest descriptor :=
  ⟨declares.text, fun t member => passes t member (declares.isType t member)⟩

theorem countTypes_bracket (outside : place ≠ .className) :
    countTypes place ('[' :: text) = countTypes .element text := by
  cases place with
  | between | element => simp [countTypes]
  | className => exact absurd rfl outside

theorem countTypes_class (outside : place ≠ .className) :
    countTypes place ('L' :: text) = countTypes .className text := by
  cases place with
  | between | element => simp [countTypes]
  | className => exact absurd rfl outside

theorem countTypes_letter {c : Char} (outside : place ≠ .className)
    (letter : c ∈ primitiveLetters) :
    countTypes place (c :: text) = (countTypes .between text).map (· + 1) := by
  have notBracket : c ≠ '[' := fun same => absurd (same ▸ letter) (by decide)
  have notClass : c ≠ 'L' := fun same => absurd (same ▸ letter) (by decide)
  have primitive := isPrimitive_iff.mpr letter
  cases place with
  | between | element => simp [countTypes, notBracket, notClass, primitive]
  | className => exact absurd rfl outside

theorem countTypes_name (inside : ';' ∉ name) :
    countTypes .className (name ++ ';' :: rest) = (countTypes .between rest).map (· + 1) := by
  induction name with
  | nil => simp [countTypes]
  | cons c name ih =>
    obtain ⟨other, later⟩ := not_or.mp (mt List.mem_cons.mpr inside)
    rw [List.cons_append, countTypes, if_neg (Ne.symm other), ih later]

/-- A type in front adds one to the count. -/
theorem countTypes_append (isType : IsType (';' ∉ ·) t) (outside : place ≠ .className) :
    countTypes place (t ++ rest) = (countTypes .between rest).map (· + 1) := by
  induction isType generalizing place with
  | primitive letter => exact countTypes_letter outside letter
  | object inside =>
    rw [List.cons_append, countTypes_class outside, List.append_assoc, List.singleton_append,
      countTypes_name inside]
  | array _ ih => rw [List.cons_append, countTypes_bracket outside, ih (by decide)]

theorem countTypes_flatten (isType : ∀ t ∈ types, IsType (';' ∉ ·) t) :
    countTypes .between types.flatten = some types.length := by
  induction types with
  | nil => rfl
  | cons t types ih =>
    obtain ⟨first, later⟩ := List.forall_mem_cons.mp isType
    rw [List.flatten_cons, countTypes_append first (by decide), ih later, List.length_cons]
    rfl

/-- The first character of a list of types is that of the first one. -/
theorem exists_first_type {c : Char} (isType : ∀ t ∈ types, IsType isName t)
    (starts : c :: text = types.flatten) :
    ∃ t more, types = (c :: t) :: more ∧ text = t ++ more.flatten := by
  cases types with
  | nil => cases starts
  | cons first more =>
    obtain ⟨d, t, rfl⟩ := (isType first (List.mem_cons_self ..)).exists_cons
    obtain ⟨rfl, rest⟩ := List.cons.inj starts
    exact ⟨t, more, rfl, rest⟩

/-- A bracket in front of a list of types belongs to the first of them. -/
theorem exists_types_opening {c : Char} (isType : ∀ t ∈ types, IsType isName t)
    (starts : c :: text = types.flatten) (outside : place ≠ .className) :
    ∃ types' : List (List Char), types'.length = types.length ∧
      (∀ t ∈ types', IsType isName t) ∧ place.opening ++ c :: text = types'.flatten := by
  cases place with
  | between => exact ⟨types, rfl, isType, starts⟩
  | element =>
    obtain ⟨t, more, rfl, rfl⟩ := exists_first_type isType starts
    obtain ⟨first, later⟩ := List.forall_mem_cons.mp isType
    exact ⟨('[' :: c :: t) :: more, rfl, List.forall_mem_cons.mpr ⟨.array first, later⟩, rfl⟩
  | className => exact absurd rfl outside

/-- A counted text is made of types, of which the first may have been begun before. -/
theorem exists_types (counted : countTypes place text = some n) :
    ∃ types : List (List Char), types.length = n ∧ (∀ t ∈ types, IsType (';' ∉ ·) t) ∧
      place.opening ++ text = types.flatten := by
  -- What has been read of a type stands in front of the text, so a step inside a class name is a
  -- longer name of the first type, and a step outside leaves the first type as it is.
  fun_induction countTypes place text generalizing n with
  | case1 =>
    obtain rfl := Option.some.inj counted
    exact ⟨[], rfl, nofun, rfl⟩
  | case2 => cases counted
  | case3 rest ih =>
    obtain ⟨m, countedRest, rfl⟩ := Option.map_eq_some_iff.mp counted
    obtain ⟨types, length, isType, rfl⟩ := ih countedRest
    have first : IsType (';' ∉ ·) ('L' :: ([] ++ [';'])) := .object List.not_mem_nil
    exact ⟨['L', ';'] :: types, congrArg (· + 1) length,
      List.forall_mem_cons.mpr ⟨first, isType⟩, rfl⟩
  | case4 c rest notEnd ih =>
    obtain ⟨types, length, isType, starts⟩ := ih counted
    obtain ⟨t, more, rfl, rfl⟩ := exists_first_type isType starts
    obtain ⟨first, later⟩ := List.forall_mem_cons.mp isType
    obtain ⟨name, inside, rfl⟩ := isType_class_iff.mp first
    have longer : IsType (';' ∉ ·) ('L' :: (c :: name ++ [';'])) :=
      .object (List.not_mem_cons_of_ne_of_not_mem (Ne.symm notEnd) inside)
    exact ⟨('L' :: (c :: name ++ [';'])) :: more, length,
      List.forall_mem_cons.mpr ⟨longer, later⟩, rfl⟩
  | case5 place rest outside ih =>
    obtain ⟨types, length, isType, starts⟩ := ih counted
    obtain ⟨types', length', opened⟩ := exists_types_opening isType starts outside
    exact ⟨types', length'.trans length, opened⟩
  | case6 place rest outside _ ih =>
    obtain ⟨types, length, isType, starts⟩ := ih counted
    obtain ⟨types', length', opened⟩ := exists_types_opening isType starts outside
    exact ⟨types', length'.trans length, opened⟩
  | case7 place c rest outside _ _ primitive ih =>
    obtain ⟨m, countedRest, rfl⟩ := Option.map_eq_some_iff.mp counted
    obtain ⟨types, length, isType, rfl⟩ := ih countedRest
    have first : IsType (';' ∉ ·) [c] := .primitive (isPrimitive_iff.mp primitive)
    obtain ⟨types', length', opened⟩ :=
      exists_types_opening (List.forall_mem_cons.mpr ⟨first, isType⟩) rfl outside
    exact ⟨types', length'.trans (congrArg (· + 1) length), opened⟩
  | case8 => cases counted

theorem parameterPart_eq_some_iff : parameterPart text = some part ↔
    ∃ rest, text = '(' :: (part ++ ')' :: rest) ∧ ')' ∉ part := by
  refine ⟨fun found => ?_, fun ⟨rest, same, absent⟩ => ?_⟩
  · unfold parameterPart at found
    split at found
    · next inner =>
      split at found
      · next closes =>
        obtain rfl := Option.some.inj found
        obtain ⟨before, after, rfl, absent⟩ := List.eq_append_cons_of_mem closes
        rw [Text.takeWhile_upTo absent]
        exact ⟨after, rfl, absent⟩
      · cases found
    · cases found
  · rw [same, parameterPart, if_pos (List.mem_append_right _ (List.mem_cons_self ..)),
      Text.takeWhile_upTo absent]

/-- The number that is counted is that of the types between the parentheses. -/
theorem parameterCount_eq_some_iff : parameterCount descriptor = some n ↔
    ∃ types rest, types.length = n ∧ Declares IsUndelimited types rest descriptor := by
  rw [parameterCount, Option.bind_eq_some_iff]
  refine ⟨fun ⟨part, found, counted⟩ => ?_, fun ⟨types, rest, length, declares⟩ => ?_⟩
  · obtain ⟨rest, same, absent⟩ := parameterPart_eq_some_iff.mp found
    obtain ⟨types, length, isType, rfl⟩ := exists_types counted
    refine ⟨types, rest, length, same, fun t member => ?_⟩
    have inside : ')' ∉ t := fun closing => absent (List.mem_flatten.mpr ⟨t, member, closing⟩)
    exact (isType t member).mono fun name notEnd within => ⟨notEnd, fun closing =>
      inside (within closing)⟩
  · have absent : ')' ∉ types.flatten := by
      intro closing
      obtain ⟨t, member, inside⟩ := List.mem_flatten.mp closing
      exact (declares.isType t member).closing_not_mem inside
    have counted := countTypes_flatten fun t member =>
      (declares.isType t member).mono fun name undelimited _ => undelimited.1
    exact ⟨types.flatten, parameterPart_eq_some_iff.mpr ⟨rest, declares.text, absent⟩,
      length ▸ counted⟩

theorem parameterCount_eq_none_iff : parameterCount descriptor = none ↔
    ∀ types rest, ¬Declares IsUndelimited types rest descriptor := by
  refine ⟨fun uncounted types rest declares => ?_, fun undeclared => ?_⟩
  · have counted := parameterCount_eq_some_iff.mpr ⟨types, rest, rfl, declares⟩
    rw [uncounted] at counted
    cases counted
  · rw [Option.eq_none_iff_forall_ne_some]
    intro n counted
    obtain ⟨types, rest, -, declares⟩ := parameterCount_eq_some_iff.mp counted
    exact undeclared types rest declares

theorem parameterCount_enclose (isType : ∀ t ∈ types, IsType IsUndelimited t) :
    parameterCount (enclose types) = some types.length :=
  parameterCount_eq_some_iff.mpr ⟨types, [], rfl, String.toList_ofList, isType⟩

/-- The parameters are counted where the descriptor starts with types in parentheses, whatever
follows, and nowhere else. The types are then the only ones that it starts with, and their number is
the count. The counts of two lists add up to the count of the two put together. -/
theorem parameterCount_grammar (member : MemberRef) :
    (∀ n, member.parameterCount = some n ↔
        ∃ types rest, types.length = n ∧ Declares IsUndelimited types rest member.descriptor) ∧
      (member.parameterCount = none ↔
        ∀ types rest, ¬Declares IsUndelimited types rest member.descriptor) ∧
      (∀ types types' rest rest', Declares IsUndelimited types rest member.descriptor →
        Declares IsUndelimited types' rest' member.descriptor → types = types' ∧ rest = rest') ∧
      ∀ types types', (∀ t ∈ types, IsType IsUndelimited t) →
        (∀ t ∈ types', IsType IsUndelimited t) →
        ∃ m n, parameterCount (enclose types) = some m ∧
          parameterCount (enclose types') = some n ∧
          parameterCount (enclose (types ++ types')) = some (m + n) := by
  refine ⟨fun n => parameterCount_eq_some_iff, parameterCount_eq_none_iff,
    fun types types' rest rest' declares declares' => ?_, fun types types' isType isType' => ?_⟩
  · exact declares.unique (fun name undelimited => undelimited.1) declares'
  · refine ⟨types.length, types'.length, parameterCount_enclose isType,
      parameterCount_enclose isType', ?_⟩
    rw [parameterCount_enclose (List.forall_mem_append.mpr ⟨isType, isType'⟩), List.length_append]

/-- A number and an object. -/
def numberAndObject : List (List Char) := [['I'], ['L', 'a', '/', '[', ';']]

/-- An array of arrays. -/
def nestedArray : List (List Char) := [['[', '[', 'J']]

theorem isType_numberAndObject : ∀ t ∈ numberAndObject, IsType IsUndelimited t := by
  have object : IsType IsUndelimited ('L' :: (['a', '/', '['] ++ [';'])) :=
    .object ⟨by decide, by decide⟩
  exact List.forall_mem_cons.mpr ⟨.primitive (by decide), List.forall_mem_singleton.mpr object⟩

theorem isType_nestedArray : ∀ t ∈ nestedArray, IsType IsUndelimited t :=
  List.forall_mem_singleton.mpr (.array (.array (.primitive (by decide))))

/-- The member is a method whose descriptor has no type behind the parameters. -/
theorem parameterCount_grammar_numberAndObject :
    (∀ t ∈ numberAndObject, IsType IsUndelimited t) ∧
      (∀ t ∈ nestedArray, IsType IsUndelimited t) ∧
      MemberRef.parameterCount ⟨"a/B", "m", "(ILa/[;))"⟩ = some 2 ∧
      ∃ m n, parameterCount (enclose numberAndObject) = some m ∧
        parameterCount (enclose nestedArray) = some n ∧
        parameterCount (enclose (numberAndObject ++ nestedArray)) = some (m + n) := by
  have grammar := parameterCount_grammar ⟨"a/B", "m", "(ILa/[;))"⟩
  have declares : Declares IsUndelimited numberAndObject [')'] "(ILa/[;))" :=
    ⟨by decide, isType_numberAndObject⟩
  exact ⟨isType_numberAndObject, isType_nestedArray,
    (grammar.1 2).mpr ⟨numberAndObject, [')'], rfl, declares⟩,
    grammar.2.2.2 numberAndObject nestedArray isType_numberAndObject isType_nestedArray⟩

end MutantSieve.Descriptor
