import MutantSieve.Proofs.Bytecode.ParameterTypes

namespace MutantSieve.Descriptor

/-- One part of the name of a class: a package or the class in it. -/
structure IsSegment (segment : List Char) : Prop where
  nonempty : segment ≠ []
  chars : ∀ c ∈ segment, c ∉ ['.', ';', '[', '/']

/-- The name of a class, with slashes between its parts. -/
inductive IsInternalName : List Char → Prop
  | last {segment} : IsSegment segment → IsInternalName segment
  | within {segment name} : IsSegment segment → IsInternalName name →
      IsInternalName (segment ++ '/' :: name)

/-- What a method returns: nothing, or a value of a type. -/
inductive IsReturn : List Char → Prop
  | void : IsReturn ['V']
  | value {t} : IsType IsInternalName t → IsReturn t

/-- A descriptor of methods with so many parameters. -/
def IsWellFormed (n : Nat) (descriptor : String) : Prop :=
  ∃ types result, types.length = n ∧ Declares IsInternalName types result descriptor ∧
    IsReturn result

variable {t name rest result : List Char} {types : List (List Char)} {descriptor : String} {n : Nat}

theorem IsInternalName.end_not_mem (named : IsInternalName name) : ';' ∉ name := by
  have inSegment {segment : List Char} (isSegment : IsSegment segment) : ';' ∉ segment :=
    fun member => isSegment.chars ';' member (by decide)
  induction named with
  | last isSegment => exact inSegment isSegment
  | within isSegment _ ih =>
    intro member
    rcases List.mem_append.mp member with first | later
    · exact inSegment isSegment first
    · rcases List.mem_cons.mp later with slash | later
      · exact absurd slash (by decide)
      · exact ih later

theorem IsInternalName.ne_nil (named : IsInternalName name) : name ≠ [] := by
  cases named with
  | last isSegment => exact isSegment.nonempty
  | within => exact List.append_ne_nil_of_right_ne_nil _ (List.cons_ne_nil _ _)

theorem IsType.undelimited (isType : IsType IsInternalName t) (inside : ')' ∉ t) :
    IsType IsUndelimited t :=
  isType.mono fun _ named within => ⟨named.end_not_mem, fun closing => inside (within closing)⟩

/-- Both splittings are into types whose class names end at their semicolons. -/
theorem Declares.unique_of_undelimited {types' : List (List Char)} {rest' : List Char}
    (declares : Declares IsInternalName types rest descriptor)
    (declares' : Declares IsUndelimited types' rest' descriptor) : types = types' ∧ rest = rest' :=
  Declares.unique (fun _ absent => absent)
    (declares.mono fun _ _ isType => isType.mono fun _ named _ => named.end_not_mem)
    (declares'.mono fun _ _ isType => isType.mono fun _ undelimited _ => undelimited.1)

theorem parameterCount_of_declares (declares : Declares IsInternalName types rest descriptor) :
    parameterCount descriptor = if ')' ∈ types.flatten then none else some types.length := by
  split
  · next closes =>
    obtain ⟨t, member, closing⟩ := List.mem_flatten.mp closes
    refine parameterCount_eq_none_iff.mpr fun types' rest' declares' => ?_
    obtain ⟨rfl, -⟩ := declares.unique_of_undelimited declares'
    exact (declares'.isType t member).closing_not_mem closing
  · next inside =>
    have undelimited := declares.mono fun t member isType =>
      isType.undelimited fun closing => inside (List.mem_flatten.mpr ⟨t, member, closing⟩)
    exact parameterCount_eq_some_iff.mpr ⟨types, rest, rfl, undelimited⟩

/-- Well-formed parameters are counted, whatever follows them, unless one of their class names
contains a closing parenthesis. Whatever else is counted has types for parameters too, but with
class names that are none, or it does not go on with a return type and end there. -/
theorem parameterCount_wellFormed (descriptor : String) :
    (∀ types rest, Declares IsInternalName types rest descriptor →
        parameterCount descriptor = if ')' ∈ types.flatten then none else some types.length) ∧
      ∀ n, parameterCount descriptor = some n →
        ∃ types rest, types.length = n ∧ Declares IsUndelimited types rest descriptor ∧
          (IsWellFormed n descriptor ↔
            (∀ t ∈ types, IsType IsInternalName t) ∧ IsReturn rest) := by
  refine ⟨fun types rest declares => parameterCount_of_declares declares, fun n counted => ?_⟩
  obtain ⟨types, rest, length, declares⟩ := parameterCount_eq_some_iff.mp counted
  refine ⟨types, rest, length, declares, fun ⟨types', result, _, declares', returns⟩ => ?_,
    fun ⟨named, returns⟩ => ⟨types, rest, length, ⟨declares.text, named⟩, returns⟩⟩
  obtain ⟨rfl, rfl⟩ := declares'.unique_of_undelimited declares
  exact ⟨declares'.isType, returns⟩

theorem isInternalName_packaged : IsInternalName (['a'] ++ '/' :: ['B']) :=
  .within ⟨nofun, by simp⟩ (.last ⟨nofun, by simp⟩)

/-- The descriptor is well-formed as well. -/
theorem parameterCount_wellFormed_packaged :
    Declares IsInternalName [['[', 'I'], ['L', 'a', '/', 'B', ';']] ['V'] "([ILa/B;)V" ∧
      parameterCount "([ILa/B;)V" = some 2 ∧ IsWellFormed 2 "([ILa/B;)V" := by
  have types : ∀ t ∈ [['[', 'I'], ['L', 'a', '/', 'B', ';']], IsType IsInternalName t :=
    List.forall_mem_cons.mpr ⟨.array (.primitive (by decide)),
      List.forall_mem_singleton.mpr (.object isInternalName_packaged)⟩
  have declares : Declares IsInternalName [['[', 'I'], ['L', 'a', '/', 'B', ';']] ['V']
      "([ILa/B;)V" := ⟨by decide, types⟩
  have counted := (parameterCount_wellFormed "([ILa/B;)V").1 _ _ declares
  obtain ⟨types', rest', length, declares', wellFormed⟩ :=
    (parameterCount_wellFormed "([ILa/B;)V").2 2 counted
  obtain ⟨rfl, rfl⟩ := declares.unique_of_undelimited declares'
  exact ⟨declares, counted, wellFormed.mpr ⟨types, .void⟩⟩

/-- A descriptor that says nothing of the result. -/
theorem not_isWellFormed_unreturned : ¬IsWellFormed n "()" := by
  rintro ⟨types, result, -, declares, returns⟩
  have length : 2 = (types.flatten ++ ')' :: result).length + 1 :=
    congrArg List.length declares.text
  rw [List.length_append, List.length_cons] at length
  obtain rfl : result = [] := List.length_eq_zero_iff.mp (by omega)
  cases returns with
  | value isType => exact nomatch isType.exists_cons

/-- A parameter of a class without a name. -/
theorem not_isWellFormed_unnamed : ¬IsWellFormed n "(L;)V" := by
  rintro ⟨types, result, -, declares, -⟩
  have unnamed : IsType IsUndelimited ('L' :: ([] ++ [';'])) := .object ⟨nofun, nofun⟩
  have counted : Declares IsUndelimited [['L', ';']] ['V'] "(L;)V" :=
    ⟨rfl, List.forall_mem_singleton.mpr unnamed⟩
  obtain ⟨rfl, -⟩ := declares.unique_of_undelimited counted
  obtain ⟨name, named, same⟩ :=
    isType_class_iff.mp (declares.isType ['L', ';'] (List.mem_singleton_self _))
  obtain rfl : name = [] := List.append_cancel_right same.symm
  exact named.ne_nil rfl

/-- A parameter of a class whose name contains a closing parenthesis. -/
theorem isWellFormed_parenthesis : IsWellFormed 1 "(La)b;)V" := by
  have named : IsInternalName ['a', ')', 'b'] := .last ⟨nofun, by simp⟩
  exact ⟨[['L', 'a', ')', 'b', ';']], ['V'], rfl,
    ⟨rfl, List.forall_mem_singleton.mpr (.object named)⟩, .void⟩

/-- Parameters are counted though nothing follows them and though a class has no name, and not
counted in a well-formed descriptor. -/
theorem parameterCount_ne_wellFormed :
    ¬(parameterCount "()" = some 0 ↔ IsWellFormed 0 "()") ∧
      ¬(parameterCount "(L;)V" = some 1 ↔ IsWellFormed 1 "(L;)V") ∧
      ¬(parameterCount "(La)b;)V" = some 1 ↔ IsWellFormed 1 "(La)b;)V") :=
  ⟨fun agree => not_isWellFormed_unreturned (agree.mp rfl),
    fun agree => not_isWellFormed_unnamed (agree.mp rfl),
    fun agree => nomatch agree.mpr isWellFormed_parenthesis⟩

end MutantSieve.Descriptor
