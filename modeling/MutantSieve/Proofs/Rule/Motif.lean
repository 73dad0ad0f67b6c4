import MutantSieve.Proofs.Rule.Anchored
import MutantSieve.Rule.ReturnValue

namespace MutantSieve

namespace Instruction

variable {i : Instruction}

theorem access_of_localIndex? {number : UInt64} (accessed : i.localIndex? = some number) :
    ∃ op, i = access op number := by
  cases i with
  | access op index => exact ⟨op, by rw [← Option.some.inj accessed]⟩
  | _ => cases accessed

theorem constant_of_constant? {value : Constant} (loaded : i.constant? = some value) :
    i = constant value := by
  cases i with
  | constant => rw [← Option.some.inj loaded]
  | _ => cases loaded

end Instruction

namespace InstructionTest

variable {i : Instruction} {owner name : String}

theorem opcode_accepts_iff {op : Opcode} : (opcode op).accepts i = true ↔ i.opcode? = some op :=
  decide_eq_true_iff

theorem zeroConstant_accepts_iff :
    zeroConstant.accepts i = true ↔ ∃ op, i.opcode? = some op ∧ op.isZeroConstant = true :=
  Option.any_eq_true ..

theorem callTo_accepts_iff : (callTo owner name).accepts i = true ↔
    ∃ op descriptor, i = .invoke op owner name descriptor := by
  cases i with
  | call op member =>
    obtain ⟨owner', name', descriptor⟩ := member
    simp [accepts, Instruction.call?, Instruction.invoke]
  | _ => simp [accepts, Instruction.call?, Instruction.invoke]

theorem getStatic_accepts_iff : (getStatic owner name).accepts i = true ↔
    ∃ descriptor, i = .getStatic owner name descriptor := by
  cases i with
  | field op member =>
    obtain ⟨owner', name', descriptor⟩ := member
    simp [accepts, Instruction.field?, Instruction.opcode?, Instruction.getStatic]
  | _ => simp [accepts, Instruction.field?, Instruction.getStatic]

end InstructionTest

/-- The operation of the last token. -/
def lastOpcode? (executed : List Token) : Option Opcode :=
  executed.getLast?.bind (·.instruction.opcode?)

namespace Rule

variable {executed : List Token} {token : Token} {c d : Context} {method : Method} {index : Nat}

theorem boxesPrimitive_accepts_iff : (boxesPrimitive.test token c).1 = true ↔
    ∃ owner ∈ boxTypes, ∃ op descriptor,
      token.instruction = .invoke op owner "valueOf" descriptor := by
  rw [boxesPrimitive, Predicate.test_anyOf (fun _ => rfl), List.any_eq_true]
  simp only [InstructionTest.callTo_accepts_iff]

/-- A call of an empty factory with no arguments. -/
def CallsEmptyFactory (i : Instruction) : Prop :=
  ∃ factory ∈ emptyFactories, ∃ op descriptor,
    i = .invoke op factory.1 factory.2 descriptor ∧ Descriptor.parameterCount descriptor = some 0

theorem makesEmpty_accepts_iff :
    (makesEmpty.test token c).1 = true ↔ CallsEmptyFactory token.instruction := by
  have tests (factory : String × String) :
      ((Predicate.callTo factory.1 factory.2).and (.plain .takesNoArguments)).test token c =
        ((InstructionTest.callTo factory.1 factory.2).accepts token.instruction &&
          InstructionTest.takesNoArguments.accepts token.instruction, c) := by
    rw [Predicate.callTo, Predicate.test_plain_and]
    cases (InstructionTest.callTo factory.1 factory.2).accepts token.instruction <;> rfl
  rw [makesEmpty, Predicate.test_anyOf tests, List.any_eq_true]
  simp only [Bool.and_eq_true, InstructionTest.callTo_accepts_iff]
  constructor
  · rintro ⟨factory, member, ⟨op, descriptor, called⟩, noArguments⟩
    rw [called] at noArguments
    exact ⟨factory, member, op, descriptor, called, of_decide_eq_true noArguments⟩
  · rintro ⟨factory, member, op, descriptor, called, noArguments⟩
    refine ⟨factory, member, ⟨op, descriptor, called⟩, ?_⟩
    rw [called]
    exact decide_eq_true noArguments

/-- A boxed true is made by a call after the constant 1, or read from its field. -/
theorem trueMotif_matchesEnd_iff : Query.MatchesEnd executed trueMotif c ↔
    ∃ last, executed.getLast? = some last ∧
      ((∃ op descriptor, last.instruction = .invoke op booleanType "valueOf" descriptor) ∧
          lastOpcode? executed.dropLast = some .iconst1 ∨
        ∃ descriptor, last.instruction = .getStatic booleanType "TRUE" descriptor) := by
  rw [trueMotif, Query.matchesEnd_orElse, Predicate.opcode, Query.matchesEnd_pair,
    Query.matchesEnd_matching]
  simp only [Predicate.callTo, Predicate.test, InstructionTest.callTo_accepts_iff,
    InstructionTest.getStatic_accepts_iff, InstructionTest.opcode_accepts_iff, lastOpcode?,
    Option.bind_eq_some_iff]
  constructor
  · rintro (⟨last, before, here, call, found, op⟩ | ⟨last, here, read⟩)
    · exact ⟨last, here, .inl ⟨call, before, found, op⟩⟩
    · exact ⟨last, here, .inr read⟩
  · rintro ⟨last, here, ⟨call, before, found, op⟩ | read⟩
    · exact .inl ⟨last, before, here, call, found, op⟩
    · exact .inr ⟨last, here, read⟩

/-- An empty object is made by a call after a zero constant, read from the field of boxed falses, or
made by a factory. -/
theorem emptyMotif_matchesEnd_iff : Query.MatchesEnd executed emptyMotif c ↔
    ∃ last, executed.getLast? = some last ∧
      ((boxesPrimitive.test last c).1 = true ∧
          (lastOpcode? executed.dropLast).any Opcode.isZeroConstant = true ∨
        (∃ descriptor, last.instruction = .getStatic booleanType "FALSE" descriptor) ∨
        (makesEmpty.test last c).1 = true) := by
  rw [emptyMotif, Query.matchesEnd_orElse, Query.matchesEnd_orElse, Query.matchesEnd_pair,
    Query.matchesEnd_matching, Query.matchesEnd_matching]
  simp only [Predicate.test, InstructionTest.getStatic_accepts_iff,
    InstructionTest.zeroConstant_accepts_iff, lastOpcode?, Option.any_eq_true,
    Option.bind_eq_some_iff]
  constructor
  · rintro ((⟨last, before, here, call, found, op, same, zero⟩ | ⟨last, here, read⟩) |
      ⟨last, here, call⟩)
    · exact ⟨last, here, .inl ⟨call, op, ⟨before, found, same⟩, zero⟩⟩
    · exact ⟨last, here, .inr (.inl read)⟩
    · exact ⟨last, here, .inr (.inr call)⟩
  · rintro ⟨last, here, ⟨call, op, ⟨before, found, same⟩, zero⟩ | read | call⟩
    · exact .inl (.inl ⟨last, before, here, call, found, op, same, zero⟩)
    · exact .inl (.inr ⟨last, here, read⟩)
    · exact .inr ⟨last, here, call⟩

theorem access_captureVariable_iff {op : Opcode} {slot : Slot .localVariable} :
    ((Predicate.opcode op).and (.captureVariable slot)).test token c = (true, d) ↔
      ∃ number, token.instruction = .access op number ∧ c.storeIndex slot number = d := by
  rw [Predicate.opcode, Predicate.test_plain_and, Predicate.test]
  constructor
  · intro accepts
    split at accepts
    · next same =>
      split at accepts
      · next number accessed =>
        obtain ⟨op', access⟩ := Instruction.access_of_localIndex? accessed
        rw [InstructionTest.opcode_accepts_iff, access, Instruction.opcode?] at same
        obtain rfl := Option.some.inj same
        exact ⟨number, access, (Prod.mk.inj accepts).2⟩
      · cases accepts
    · cases accepts
  · rintro ⟨number, access, rfl⟩
    rw [access]
    simp [InstructionTest.opcode_accepts_iff, Instruction.opcode?, Instruction.localIndex?]

theorem access_sameVariable_iff {op : Opcode} {slot : Slot .localVariable} :
    (((Predicate.opcode op).and (.sameVariable slot)).test token c).1 = true ↔
      ∃ number, token.instruction = .access op number ∧ c.localIndex? slot = some number := by
  rw [Predicate.test_and, Bool.and_eq_true, Predicate.opcode]
  simp only [Predicate.test, InstructionTest.opcode_accepts_iff, Option.any_eq_true]
  constructor
  · rintro ⟨same, number, accessed, bound⟩
    obtain ⟨op', access⟩ := Instruction.access_of_localIndex? accessed
    rw [access, Instruction.opcode?, Option.some.injEq] at same
    exact ⟨number, same ▸ access, of_decide_eq_true bound⟩
  · rintro ⟨number, access, bound⟩
    rw [access]
    exact ⟨rfl, number, rfl, decide_eq_true bound⟩

/-- A store to another variable than the captured one, or no store, is passed over. -/
theorem noStore_accepts_iff {number : UInt64} (bound : c.localIndex? localSlot = some number) :
    (((Predicate.opcode .astore).and (.sameVariable localSlot)).negate.test token c).1 = true ↔
      token.instruction ≠ .access .astore number := by
  have stores : (((Predicate.opcode .astore).and (.sameVariable localSlot)).test token c).1 =
      true ↔ token.instruction = .access .astore number := by
    rw [access_sameVariable_iff, bound]
    simp only [Option.some.injEq, exists_eq_right']
  rw [Predicate.test, Bool.not_eq_true', ← Bool.not_eq_true, stores]

theorem noStore_test (token : Token) (c : Context) :
    (((Predicate.opcode .astore).and (.sameVariable localSlot)).negate.test token c).2 = c := by
  rw [Predicate.test, Predicate.opcode, Predicate.test_plain_and]
  split <;> simp [Predicate.test]

/-- An empty value of a factory is stored to a variable, no later store goes to that variable, and
the last instruction loads it. -/
theorem storedEmptyMotif_matchesEnd_iff : Query.MatchesEnd executed storedEmptyMotif c ↔
    ∃ load number, executed.getLast? = some load ∧ load.instruction = .access .aload number ∧
      ∃ earlier store between, executed.dropLast = earlier ++ store :: between ∧
        store.instruction = .access .astore number ∧
        (∀ token ∈ between, token.instruction ≠ .access .astore number) ∧
        ∃ made, earlier.getLast? = some made ∧ (makesEmpty.test made c).1 = true := by
  rw [storedEmptyMotif, Query.matchesEnd_snoc]
  constructor
  · rintro ⟨load, start, d, final, derivation, loads⟩
    obtain ⟨front, between, parts, upToStore, others⟩ :=
      (Query.derives_append_rounds noStore_test derivation.le).mp derivation
    obtain ⟨store, c', last, upToCall, captures⟩ := Query.derives_snoc.mp upToStore
    obtain ⟨number, stored, rfl⟩ := access_captureVariable_iff.mp captures
    -- The rounds and the load are tested in the context that the store leaves.
    have bound := c'.localIndex?_storeIndex localSlot number
    obtain ⟨number', loaded, same⟩ := access_sameVariable_iff.mp loads
    obtain rfl : number = number' := Option.some.inj (bound.symm.trans same)
    obtain ⟨earlier, rfl⟩ := List.getLast?_eq_some_iff.mp last
    rw [List.dropLast_concat] at upToCall
    rw [List.append_assoc, List.singleton_append] at parts
    exact ⟨load, number, final, loaded, earlier, store, between, parts, stored,
      fun token member => (noStore_accepts_iff bound).mp (others token member),
      Query.matchesEnd_matching.mp ⟨start, c', upToCall⟩⟩
  · rintro ⟨load, number, final, loaded, earlier, store, between, parts, stored, others, made⟩
    obtain ⟨start, c', upToCall⟩ := Query.matchesEnd_matching.mpr made
    have bound := c'.localIndex?_storeIndex localSlot number
    have upToStore : Query.Derives (earlier ++ [store]) _ start c (earlier ++ [store]).length
        (c'.storeIndex localSlot number) :=
      Query.derives_snoc.mpr ⟨store, c', List.getLast?_concat,
        by rwa [List.dropLast_concat], access_captureVariable_iff.mpr ⟨number, stored, rfl⟩⟩
    refine ⟨load, start, _, final, ?_, access_sameVariable_iff.mpr ⟨number, loaded, bound⟩⟩
    refine (Query.derives_append_rounds noStore_test ?_).mpr
      ⟨_, between, ?_, upToStore, fun token member =>
        (noStore_accepts_iff bound).mpr (others token member)⟩
    · have := upToCall.le
      rw [parts, List.length_append]
      omega
    · rw [parts, List.append_assoc, List.singleton_append]

/-- A stored empty value is loaded by the last instruction. -/
theorem load_of_storedEmptyMotif (found : Query.MatchesEnd executed storedEmptyMotif c) :
    ∃ last number, executed.getLast? = some last ∧ last.instruction = .access .aload number := by
  obtain ⟨load, number, final, loaded, -⟩ := storedEmptyMotif_matchesEnd_iff.mp found
  exact ⟨load, number, final, loaded⟩

end Rule

end MutantSieve
