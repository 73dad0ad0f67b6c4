import MutantSieve.Proofs.Rule.Locality
import MutantSieve.Proofs.Rule.LookBack
import MutantSieve.Proofs.Rule.Motif

namespace MutantSieve

namespace Body

variable {body : Body} {index position : Nat} {i : Instruction}

theorem precededBy_iff :
    body.PrecededBy index i ↔ (body.codeBefore index).getLast? = some i := by
  unfold PrecededBy
  rw [codeBefore_eq, List.getLast?_map, Option.map_eq_some_iff]
  constructor
  · rintro ⟨position, last⟩
    exact ⟨_, getLast?_executedBefore_iff.mpr ⟨position, i, last, rfl⟩, rfl⟩
  · rintro ⟨token, final, rfl⟩
    obtain ⟨position, i, last, rfl⟩ := getLast?_executedBefore_iff.mp final
    exact ⟨position, last⟩

theorem LastBefore.codeBefore_eq (last : body.LastBefore index position i) :
    body.codeBefore index = body.codeBefore position ++ [i] := by
  rw [Body.codeBefore_eq, Body.codeBefore_eq, last.executedBefore_eq, List.map_append]
  rfl

/-- The last instruction that is executed before an index and the code before that one. -/
theorem exists_codeBefore_iff {P : Instruction → List Instruction → Prop} :
    (∃ position i, body.LastBefore index position i ∧ P i (body.codeBefore position)) ↔
      ∃ i, (body.codeBefore index).getLast? = some i ∧ P i (body.codeBefore index).dropLast := by
  constructor
  · rintro ⟨position, i, last, holds⟩
    have code := last.codeBefore_eq
    exact ⟨i, by rw [code, List.getLast?_concat], by rwa [code, List.dropLast_concat]⟩
  · rintro ⟨i, final, holds⟩
    obtain ⟨position, last⟩ := precededBy_iff.mpr final
    rw [last.codeBefore_eq, List.dropLast_concat] at holds
    exact ⟨position, i, last, holds⟩

theorem lt_size_of_executesAt (executes : body.executesAt index = true) : index < body.size := by
  obtain ⟨i, here, -⟩ := (Option.any_eq_true ..).mp executes
  exact (Array.getElem?_eq_some_iff.mp here).1

end Body

theorem getLast?_rtake_two {α : Type} (l : List α) :
    (l.rtake 2).getLast? = l.getLast? ∧
      (l.rtake 2).dropLast.getLast? = l.dropLast.getLast? := by
  obtain ⟨r, rfl⟩ : ∃ r : List α, l = r.reverse := ⟨_, l.reverse_reverse.symm⟩
  rw [List.rtake_eq_reverse_take_reverse, List.reverse_reverse]
  match r with
  | [] | [_] | _ :: _ :: _ => simp

namespace Rule

variable {method : Method} {index : Nat}

theorem opcodeBefore_eq_some_iff {op : Opcode} : opcodeBefore method index = some op ↔
    index < method.body.size ∧ ∃ position i, method.body.LastBefore index position i ∧
      i.opcode? = some op := by
  unfold opcodeBefore
  simp only [Option.bind_eq_some_iff, Method.realBefore_eq_some_iff, and_assoc, exists_and_left]
  rw [Body.exists_getLast?_iff (P := fun i _ => i.opcode? = some op)]

theorem loadsEmptyString_iff : loadsEmptyString method index = true ↔
    index < method.body.size ∧
      ∃ position, method.body.LastBefore index position (.constant (.string "")) := by
  unfold loadsEmptyString
  simp only [Option.any_eq_true, Method.realBefore_eq_some_iff, and_assoc, exists_and_left,
    decide_eq_true_eq]
  rw [Body.exists_getLast?_iff (P := fun i _ => i.constant? = some (.string ""))]
  refine and_congr_right fun _ => exists_congr fun position => ?_
  constructor
  · rintro ⟨i, last, loaded⟩
    rwa [← Instruction.constant_of_constant? loaded]
  · exact fun last => ⟨_, last, rfl⟩

theorem lastOpcode?_eq_some_iff {body : Body} {op : Opcode} :
    lastOpcode? (body.executedBefore index) = some op ↔
      ∃ i, body.PrecededBy index i ∧ i.opcode? = some op := by
  unfold lastOpcode?
  rw [Option.bind_eq_some_iff, Body.exists_last_iff (P := fun i => i.opcode? = some op)]

/-- Where the end of the code decides about a motif, it decides about the anchored one. -/
theorem endsBefore_iff {motif : Query} {P : Instruction → List Token → Prop}
    (spares : anchorSlot.key ∉ motif.targets)
    (decides : ∀ executed c, Query.MatchesEnd executed motif c ↔
      ∃ last, executed.getLast? = some last ∧ P last.instruction executed.dropLast) :
    (motif.anchored.matcher (some .marker)).endsBefore method index = true ↔
      method.body.executesAt index = true ∧ ∃ position i,
        method.body.LastBefore index position i ∧ P i (method.body.executedBefore position) := by
  rw [Query.endsBefore_anchored spares, Body.executesAt_iff, ← Body.exists_getLast?_iff]
  simp only [decides, ← and_assoc, exists_and_right]

theorem trueMatcher_endsBefore_iff : trueMatcher.endsBefore method index = true ↔
    method.body.executesAt index = true ∧ ∃ position i,
      method.body.LastBefore index position i ∧
        ((∃ op descriptor, i = .invoke op booleanType "valueOf" descriptor) ∧
            (∃ i', method.body.PrecededBy position i' ∧ i'.opcode? = some .iconst1) ∨
          ∃ descriptor, i = .getStatic booleanType "TRUE" descriptor) := by
  unfold trueMatcher
  rw [endsBefore_iff (by decide) (P := fun i earlier =>
    (∃ op descriptor, i = .invoke op booleanType "valueOf" descriptor) ∧
        lastOpcode? earlier = some .iconst1 ∨
      ∃ descriptor, i = .getStatic booleanType "TRUE" descriptor)
    fun _ _ => trueMotif_matchesEnd_iff]
  simp only [lastOpcode?_eq_some_iff]

theorem emptyMatcher_endsBefore_iff : emptyMatcher.endsBefore method index = true ↔
    method.body.executesAt index = true ∧ ∃ position i,
      method.body.LastBefore index position i ∧
        ((∃ owner ∈ boxTypes, ∃ op descriptor, i = .invoke op owner "valueOf" descriptor) ∧
            (∃ i', method.body.PrecededBy position i' ∧ i'.isZeroConstant = true) ∨
          (∃ descriptor, i = .getStatic booleanType "FALSE" descriptor) ∨
          CallsEmptyFactory i) := by
  have zero {position : Nat} :
      (lastOpcode? (method.body.executedBefore position)).any Opcode.isZeroConstant = true ↔
        ∃ i', method.body.PrecededBy position i' ∧ i'.isZeroConstant = true := by
    simp only [Option.any_eq_true, lastOpcode?_eq_some_iff, Instruction.isZeroConstant]
    constructor
    · rintro ⟨op, ⟨i', last, same⟩, isZero⟩
      exact ⟨i', last, op, same, isZero⟩
    · rintro ⟨i', last, op, same, isZero⟩
      exact ⟨op, ⟨i', last, same⟩, isZero⟩
  unfold emptyMatcher
  rw [endsBefore_iff (by decide) (P := fun i earlier =>
    (∃ owner ∈ boxTypes, ∃ op descriptor, i = .invoke op owner "valueOf" descriptor) ∧
        (lastOpcode? earlier).any Opcode.isZeroConstant = true ∨
      (∃ descriptor, i = .getStatic booleanType "FALSE" descriptor) ∨ CallsEmptyFactory i)
    fun executed c => by
      rw [emptyMotif_matchesEnd_iff]
      simp only [boxesPrimitive_accepts_iff, makesEmpty_accepts_iff]]
  simp only [zero]

theorem storedEmptyMatcher_endsBefore_iff : storedEmptyMatcher.endsBefore method index = true ↔
    method.body.executesAt index = true ∧ ∃ position i,
      method.body.LastBefore index position i ∧ ∃ number, i = .access .aload number ∧
        ∃ store, method.body.LastStore position number store ∧
          ∃ i', method.body.PrecededBy store i' ∧ CallsEmptyFactory i' := by
  unfold storedEmptyMatcher
  rw [endsBefore_iff (by decide) (P := fun i earlier => ∃ number, i = .access .aload number ∧
    ∃ before store between, earlier = before ++ store :: between ∧
      store.instruction = .access .astore number ∧
      (∀ token ∈ between, token.instruction ≠ .access .astore number) ∧
      ∃ made, before.getLast? = some made ∧ CallsEmptyFactory made.instruction)
    fun executed c => by
      rw [storedEmptyMotif_matchesEnd_iff]
      simp only [makesEmpty_accepts_iff, exists_and_left]]
  simp only [Body.exists_lastStore_iff (P := fun before => ∃ made, before.getLast? = some made ∧
    CallsEmptyFactory made.instruction),
    Body.exists_last_iff (P := CallsEmptyFactory)]

/-- An instruction leaves a true: the constant 1, or a boxed one, which is left only for an
instruction that is executed. The instructions that may come before it are given. -/
def LeavesTrue (executes : Bool) (before : Instruction → Prop) (i : Instruction) : Prop :=
  i.opcode? = some .iconst1 ∨ executes = true ∧
    ((∃ op descriptor, i = .invoke op booleanType "valueOf" descriptor) ∧
        (∃ i', before i' ∧ i'.opcode? = some .iconst1) ∨
      ∃ descriptor, i = .getStatic booleanType "TRUE" descriptor)

theorem hardCodedTrue_iff {owned : MutatorSet} {m : Mutation} :
    (hardCodedTrue owned).isEquivalent m method = true ↔
      m.index.toNat < method.body.size ∧ ∃ position i,
        method.body.LastBefore m.index.toNat position i ∧
          LeavesTrue (method.body.executesAt m.index.toNat) (method.body.PrecededBy position) i := by
  unfold hardCodedTrue LeavesTrue
  rw [Bool.or_eq_true, decide_eq_true_eq, opcodeBefore_eq_some_iff, trueMatcher_endsBefore_iff]
  constructor
  · rintro (⟨within, position, i, last, same⟩ | ⟨executes, position, i, last, boxed⟩)
    · exact ⟨within, position, i, last, .inl same⟩
    · exact ⟨Body.lt_size_of_executesAt executes, position, i, last, .inr ⟨executes, boxed⟩⟩
  · rintro ⟨within, position, i, last, same | ⟨executes, boxed⟩⟩
    · exact .inl ⟨within, position, i, last, same⟩
    · exact .inr ⟨executes, position, i, last, boxed⟩

theorem hardCodedTrue_iff_code {owned : MutatorSet} {m : Mutation} :
    (hardCodedTrue owned).isEquivalent m method = true ↔
      m.index.toNat < method.body.size ∧ ∃ i,
        (method.body.codeBefore m.index.toNat).getLast? = some i ∧
          LeavesTrue (method.body.executesAt m.index.toNat)
            (fun i' => (method.body.codeBefore m.index.toNat).dropLast.getLast? = some i') i := by
  have preceded (position : Nat) : method.body.PrecededBy position =
      fun i' => (method.body.codeBefore position).getLast? = some i' :=
    funext fun i' => propext Body.precededBy_iff
  simp only [hardCodedTrue_iff, preceded]
  rw [Body.exists_codeBefore_iff (P := fun i earlier =>
    LeavesTrue (method.body.executesAt m.index.toNat) (fun i' => earlier.getLast? = some i') i)]

/-- The rule for trues goes by the last instruction executed before the index and the one before
that. What stands elsewhere in the method has no say, not even before an equal instruction. -/
theorem hardCodedTrue_decides (owned : MutatorSet) (m : Mutation) (method : Method) :
    ((hardCodedTrue owned).isEquivalent m method = true ↔
      m.index.toNat < method.body.size ∧ ∃ position i,
        method.body.LastBefore m.index.toNat position i ∧
          (i.opcode? = some .iconst1 ∨ method.body.executesAt m.index.toNat = true ∧
            ((∃ op descriptor, i = .invoke op booleanType "valueOf" descriptor) ∧
                (∃ i', method.body.PrecededBy position i' ∧ i'.opcode? = some .iconst1) ∨
              ∃ descriptor, i = .getStatic booleanType "TRUE" descriptor))) ∧
    ∀ (m' : Mutation) (method' : Method),
      (m.index.toNat < method.body.size ↔ m'.index.toNat < method'.body.size) →
      method.body.executesAt m.index.toNat = method'.body.executesAt m'.index.toNat →
      (method.body.codeBefore m.index.toNat).rtake 2 =
        (method'.body.codeBefore m'.index.toNat).rtake 2 →
      (hardCodedTrue owned).isEquivalent m method =
        (hardCodedTrue owned).isEquivalent m' method' := by
  refine ⟨hardCodedTrue_iff, fun m' method' names executes same => ?_⟩
  -- The two instructions looked at are the last two of the code, and these agree.
  obtain ⟨last, before⟩ := getLast?_rtake_two (method.body.codeBefore m.index.toNat)
  obtain ⟨last', before'⟩ := getLast?_rtake_two (method'.body.codeBefore m'.index.toNat)
  rw [same] at last before
  rw [Bool.eq_iff_iff, hardCodedTrue_iff_code, hardCodedTrue_iff_code, names, executes,
    ← last, ← before, last', before']

/-- A method that returns a boxed true, and null at its end. -/
def returnsTrueOrNull : Method :=
  { returnsTrue with body := returnsTrue.body ++ #[.simple .aconstNull, .label 0, .simple .areturn] }

/-- A method with the same two instructions before its last return, and no true. -/
def returnsNull : Method :=
  { returnsTrue with body := #[.simple .areturn, .simple .aconstNull, .simple .areturn] }

/-- The true is found where it is returned, and not before the other return. -/
theorem hardCodedTrue_decides_returnsTrueOrNull :
    let rule := hardCodedTrue ({} : MutatorIds).trueSet
    rule.isEquivalent (trueMutantAt 2) returnsTrueOrNull = true ∧
      rule.isEquivalent (trueMutantAt 5) returnsTrueOrNull = false := by
  intro rule
  obtain ⟨exact, -⟩ := hardCodedTrue_decides ({} : MutatorIds).trueSet (trueMutantAt 2)
    returnsTrueOrNull
  obtain ⟨-, sameCode⟩ := hardCodedTrue_decides ({} : MutatorIds).trueSet (trueMutantAt 5)
    returnsTrueOrNull
  have call : returnsTrueOrNull.body.LastBefore 2 1
      (.invokeStatic booleanType "valueOf" "(Z)Ljava/lang/Boolean;") :=
    ⟨by decide, rfl, rfl, fun k after before => by omega⟩
  have one : returnsTrueOrNull.body.LastBefore 1 0 (.simple .iconst1) :=
    ⟨by decide, rfl, rfl, fun k after before => by omega⟩
  refine ⟨exact.mpr ⟨by decide, 1, _, call, .inr ⟨rfl, .inl ⟨⟨_, _, rfl⟩, _, ⟨0, one⟩, rfl⟩⟩⟩, ?_⟩
  have nothing : rule.isEquivalent (trueMutantAt 2) returnsNull = false := by cbv
  exact (sameCode (trueMutantAt 2) returnsNull (by decide) rfl rfl).trans nothing

/-- The rule for empty values goes by the last instruction executed before the index: it loads the
empty string, or an executed instruction stands at the index and an empty object is made there,
or a variable is loaded whose last store comes right behind a call of an empty factory. -/
theorem emptyReturns_decides (owned : MutatorSet) (m : Mutation) (method : Method) :
    (emptyReturns owned).isEquivalent m method = true ↔
      m.index.toNat < method.body.size ∧ ∃ position i,
        method.body.LastBefore m.index.toNat position i ∧
          (i = .constant (.string "") ∨ method.body.executesAt m.index.toNat = true ∧
            (((∃ owner ∈ boxTypes, ∃ op descriptor, i = .invoke op owner "valueOf" descriptor) ∧
                  (∃ i', method.body.PrecededBy position i' ∧ i'.isZeroConstant = true) ∨
                (∃ descriptor, i = .getStatic booleanType "FALSE" descriptor) ∨
                CallsEmptyFactory i) ∨
              ∃ number, i = .access .aload number ∧
                ∃ store, method.body.LastStore position number store ∧
                  ∃ i', method.body.PrecededBy store i' ∧ CallsEmptyFactory i')) := by
  unfold emptyReturns
  rw [Bool.or_eq_true, Bool.or_eq_true, loadsEmptyString_iff, emptyMatcher_endsBefore_iff,
    storedEmptyMatcher_endsBefore_iff]
  constructor
  · rintro ((⟨executes, position, i, last, direct⟩ | ⟨executes, position, i, last, stored⟩) |
      ⟨within, position, last⟩)
    · exact ⟨Body.lt_size_of_executesAt executes, position, i, last, .inr ⟨executes, .inl direct⟩⟩
    · exact ⟨Body.lt_size_of_executesAt executes, position, i, last, .inr ⟨executes, .inr stored⟩⟩
    · exact ⟨within, position, _, last, .inl rfl⟩
  · rintro ⟨within, position, i, last, rfl | ⟨executes, direct | stored⟩⟩
    · exact .inr ⟨within, position, last⟩
    · exact .inl (.inl ⟨executes, position, i, last, direct⟩)
    · exact .inl (.inr ⟨executes, position, i, last, stored⟩)

end Rule

end MutantSieve
