import MutantSieve.Proofs.Pattern.Alike
import MutantSieve.Proofs.Rule.Anchored
import MutantSieve.Rule.ReturnValue
import Mathlib

namespace MutantSieve

/-- The two are equal, or equal with numbers compared by value. -/
def Instruction.Same (i j : Instruction) : Prop := i = j ∨ i.sameValue j = true

theorem Instruction.Same.alike {i j : Instruction} (same : i.Same j) : i.Alike j := by
  rcases same with rfl | same
  · exact .refl i
  · exact .of_sameValue same

theorem InstructionTest.loadsConstant_string_accepts_iff {text : String} {i : Instruction} :
    (loadsConstant (.string text)).accepts i = true ↔ i.constant? = some (.string text) := by
  rw [accepts, Option.any_eq_true]
  constructor
  · rintro ⟨value, loaded, same⟩
    rw [loaded, of_decide_eq_true same]
  · exact fun loaded => ⟨_, loaded, decide_eq_true rfl⟩

namespace Body

variable {body before : Body} {index : Nat}

/-- The instructions before an index that are executed. -/
def codeBefore (body : Body) (index : Nat) : List Instruction :=
  (body.toList.take index).filter fun i => !i.isMarker

/-- An instruction that is executed stands at an index. -/
def executesAt (body : Body) (index : Nat) : Bool := body[index]?.any fun i => !i.isMarker

theorem map_tokens (body : Body) : body.tokens.map (·.instruction) = body.toList := by
  refine List.ext_getElem? fun index => ?_
  rw [List.getElem?_map, tokens_getElem?, token?, Option.map_map, Array.getElem?_toList]
  exact Option.map_id'

theorem codeBefore_eq (body : Body) (index : Nat) :
    body.codeBefore index = (body.executedBefore index).map (·.instruction) := by
  rw [codeBefore, executedBefore, ← map_tokens, ← List.map_take, List.filter_map]
  rfl

theorem executesAt_iff : body.executesAt index = true ↔
    ∃ anchor, body.token? index = some anchor ∧ anchor.instruction.isMarker = false := by
  simp [executesAt, token?, Option.any_eq_true]

theorem codeBefore_append : (before ++ body).codeBefore (before.size + index) =
    before.toList.filter (fun i => !i.isMarker) ++ body.codeBefore index := by
  rw [codeBefore, codeBefore, ← List.filter_append, Array.toList_append, ← Array.length_toList,
    List.take_length_add_append]

theorem getElem?_append_size : (before ++ body)[before.size + index]? = body[index]? := by
  rw [Array.getElem?_append_right (Nat.le_add_right _ _), Nat.add_sub_cancel_left]

end Body

namespace Method

variable {method method' : Method} {index index' : Nat}

/-- What leads to an index of one method leads to an index of another. The second index names an
instruction if the first one does, and one that is executed if that one is; the code before the
first is alike to what comes last before the second. -/
structure Retraced (method : Method) (index : Nat) (method' : Method) (index' : Nat) : Prop where
  names : index < method.body.size → index' < method'.body.size
  executes : method.body.executesAt index = true → method'.body.executesAt index' = true
  code : EndsAlike (method.body.codeBefore index) (method'.body.codeBefore index')

theorem Retraced.executed (retraced : Retraced method index method' index') :
    EndsAlike ((method.body.executedBefore index).map (·.instruction))
      ((method'.body.executedBefore index').map (·.instruction)) := by
  rw [← Body.codeBefore_eq, ← Body.codeBefore_eq]
  exact retraced.code

theorem Retraced.realBefore (retraced : Retraced method index method' index') {last : Token}
    (here : method.realBefore index = some last) :
    ∃ last', method'.realBefore index' = some last' ∧
      last.instruction.Alike last'.instruction := by
  obtain ⟨within, here⟩ := realBefore_eq_some_iff.mp here
  have final : ((method.body.executedBefore index).map (·.instruction)).getLast? =
      some last.instruction := by rw [List.getLast?_map, here, Option.map_some]
  obtain ⟨_, here', alike⟩ := retraced.executed.getLast? final
  rw [List.getLast?_map] at here'
  obtain ⟨last', found, rfl⟩ := Option.map_eq_some_iff.mp here'
  exact ⟨last', realBefore_eq_some_iff.mpr ⟨retraced.names within, found⟩, alike⟩

theorem Retraced.endsBefore (retraced : Retraced method index method' index') {motif : Query}
    (spares : anchorSlot.key ∉ motif.targets) (anonymous : motif.anonymous = true)
    (found : (motif.anchored.matcher (some .marker)).endsBefore method index = true) :
    (motif.anchored.matcher (some .marker)).endsBefore method' index' = true := by
  obtain ⟨anchor, here, real, matched⟩ := (Query.endsBefore_anchored spares method index).mp found
  obtain ⟨anchor', here', real'⟩ := Body.executesAt_iff.mp
    (retraced.executes (Body.executesAt_iff.mpr ⟨anchor, here, real⟩))
  -- The anchors are different tokens, but only the clause behind the motif looks at them.
  have same : Context.SameVariables anchor.anchored anchor'.anchored := fun slot => by
    rw [Token.anchored, Token.anchored, Context.get?_storeToken, Context.get?_storeToken]
  exact (Query.endsBefore_anchored spares method' index').mpr
    ⟨anchor', here', real', matched.transfer anonymous retraced.executed same⟩

theorem Retraced.of_executes (executes' : method'.body.executesAt index' = true)
    (code : List.Forall₂ Instruction.Alike (method.body.codeBefore index)
      (method'.body.codeBefore index')) : Retraced method index method' index' where
  names _ := by
    obtain ⟨i, here, -⟩ := (Option.any_eq_true ..).mp executes'
    exact (Array.getElem?_eq_some_iff.mp here).1
  executes _ := executes'
  code := ⟨_, List.suffix_refl _, code⟩

theorem Retraced.of_append {before : Body} (body : method'.body = before ++ method.body)
    (place : index' = before.size + index) : Retraced method index method' index' where
  names within := by
    rw [body, place, Array.size_append]
    omega
  executes real := by
    rwa [Body.executesAt, body, place, Body.getElem?_append_size]
  code := by
    rw [body, place, Body.codeBefore_append]
    exact ⟨_, List.suffix_append _ _, List.forall₂_same.mpr fun i _ => .refl i⟩

end Method

namespace Rule

variable {method method' : Method} {index index' : Nat}

theorem opcodeBefore_of_retraced (retraced : Method.Retraced method index method' index')
    {op : Opcode} (before : opcodeBefore method index = some op) :
    opcodeBefore method' index' = some op := by
  obtain ⟨last, here, same⟩ := Option.bind_eq_some_iff.mp before
  obtain ⟨last', here', alike⟩ := retraced.realBefore here
  exact Option.bind_eq_some_iff.mpr ⟨last', here', alike.opcode_eq.symm.trans same⟩

theorem loadsEmptyString_of_retraced (retraced : Method.Retraced method index method' index')
    (loads : loadsEmptyString method index = true) : loadsEmptyString method' index' = true := by
  obtain ⟨last, here, text⟩ := (Option.any_eq_true ..).mp loads
  obtain ⟨last', here', alike⟩ := retraced.realBefore here
  have loads := InstructionTest.loadsConstant_string_accepts_iff.mpr (of_decide_eq_true text)
  rw [alike.accepts] at loads
  exact (Option.any_eq_true ..).mpr
    ⟨last', here', decide_eq_true (InstructionTest.loadsConstant_string_accepts_iff.mp loads)⟩

/-- The rule accepts again where what leads to the mutated instruction is retraced. -/
def GoesByCode (rule : Rule) : Prop :=
  ∀ {m m' : Mutation} {method method' : Method},
    Method.Retraced method m.index.toNat method' m'.index.toNat →
      rule.isEquivalent m method = true → rule.isEquivalent m' method' = true

theorem primitiveZero_goesByCode (owned : MutatorSet) : (primitiveZero owned).GoesByCode := by
  intro m m' method method' retraced equivalent
  obtain ⟨op, before, zero⟩ := (Option.any_eq_true ..).mp equivalent
  exact (Option.any_eq_true ..).mpr ⟨op, opcodeBefore_of_retraced retraced before, zero⟩

theorem nullReturns_goesByCode (owned : MutatorSet) : (nullReturns owned).GoesByCode := by
  intro m m' method method' retraced equivalent
  exact decide_eq_true (opcodeBefore_of_retraced retraced (of_decide_eq_true equivalent))

theorem emptyReturns_goesByCode (owned : MutatorSet) : (emptyReturns owned).GoesByCode := by
  intro m m' method method' retraced equivalent
  simp only [emptyReturns, Bool.or_eq_true] at equivalent ⊢
  rcases equivalent with (direct | stored) | text
  · exact .inl (.inl (retraced.endsBefore (by decide) rfl direct))
  · exact .inl (.inr (retraced.endsBefore (by decide) rfl stored))
  · exact .inr (loadsEmptyString_of_retraced retraced text)

theorem hardCodedTrue_goesByCode (owned : MutatorSet) : (hardCodedTrue owned).GoesByCode := by
  intro m m' method method' retraced equivalent
  simp only [hardCodedTrue, Bool.or_eq_true, decide_eq_true_eq] at equivalent ⊢
  rcases equivalent with primitive | boxed
  · exact .inl (opcodeBefore_of_retraced retraced primitive)
  · exact .inr (retraced.endsBefore (by decide) rfl boxed)

/-- The verdicts of the four rules are the same for any two executed instructions with the same
executed code before them, and code put at the beginning of a method takes no mutant away. -/
theorem verdicts_local (zeroSet nullSet emptySet trueSet : MutatorSet) :
    ∀ rule ∈ [primitiveZero zeroSet, nullReturns nullSet, emptyReturns emptySet,
        hardCodedTrue trueSet],
      (∀ (m m' : Mutation) (method method' : Method),
        method.body.executesAt m.index.toNat = true →
        method'.body.executesAt m'.index.toNat = true →
        List.Forall₂ Instruction.Same (method.body.codeBefore m.index.toNat)
          (method'.body.codeBefore m'.index.toNat) →
        rule.isEquivalent m method = rule.isEquivalent m' method') ∧
      ∀ (m m' : Mutation) (method method' : Method) (before : Body),
        method'.body = before ++ method.body → m'.index.toNat = before.size + m.index.toNat →
        rule.isEquivalent m method = true → rule.isEquivalent m' method' = true := by
  intro rule member
  have goesByCode : rule.GoesByCode := by
    simp only [List.mem_cons, List.not_mem_nil, or_false] at member
    rcases member with rfl | rfl | rfl | rfl
    · exact primitiveZero_goesByCode zeroSet
    · exact nullReturns_goesByCode nullSet
    · exact emptyReturns_goesByCode emptySet
    · exact hardCodedTrue_goesByCode trueSet
  refine ⟨fun m m' method method' executes executes' code => Bool.eq_iff_iff.mpr ⟨?_, ?_⟩, ?_⟩
  · exact goesByCode (.of_executes executes' (code.imp fun _ _ same => same.alike))
  · exact goesByCode (.of_executes executes (code.imp fun _ _ same => same.alike.symm).flip)
  · exact fun m m' method method' before body place => goesByCode (.of_append body place)

/-- A method that returns a boxed true. -/
def returnsTrue : Method :=
  ⟨⟨"a/B", "m", "()Ljava/lang/Boolean;"⟩,
    #[.simple .iconst1, .invokeStatic booleanType "valueOf" "(Z)Ljava/lang/Boolean;",
      .simple .areturn]⟩

/-- A method that makes the same value between markers, and keeps it. -/
def keepsTrue : Method :=
  ⟨⟨"a/B", "n", "()V"⟩,
    #[.label 0, .line 7 0, .simple .iconst1, .frame,
      .invokeStatic booleanType "valueOf" "(Z)Ljava/lang/Boolean;", .label 1, .access .astore 1,
      .simple .voidReturn]⟩

/-- The mutant at an index of the first method. -/
def trueMutantAt (index : UInt64) : Mutation :=
  ⟨"TRUE_RETURNS", index, returnsTrue.location, none, none⟩

/-- The boxed true is found between the markers, and also behind other code. -/
theorem verdicts_local_returnsTrue :
    let rule := hardCodedTrue ({} : MutatorIds).trueSet
    rule.isEquivalent (trueMutantAt 6) keepsTrue = true ∧
      rule.isEquivalent (trueMutantAt 4)
        { returnsTrue with body := #[.simple .nop, .frame] ++ returnsTrue.body } = true := by
  intro rule
  obtain ⟨sameCode, behind⟩ := verdicts_local ({} : MutatorIds).zeroSet ({} : MutatorIds).nullSet
    ({} : MutatorIds).emptySet ({} : MutatorIds).trueSet rule (by simp [rule])
  have equivalent : rule.isEquivalent (trueMutantAt 2) returnsTrue = true := by cbv
  refine ⟨?_, behind (trueMutantAt 2) (trueMutantAt 4) returnsTrue _ _ rfl rfl equivalent⟩
  have same := sameCode (trueMutantAt 2) (trueMutantAt 6) returnsTrue keepsTrue rfl rfl
    (.cons (.inl rfl) (.cons (.inl rfl) .nil))
  exact same.symm.trans equivalent

end Rule

end MutantSieve
