import MutantSieve.Filter.ReturnEquivalence
import MutantSieve.Proofs.Filter.Pointwise
import MutantSieve.Proofs.Rule.Motif

namespace MutantSieve

namespace Instruction

/-- The operation is one that these operands go with, as in code read from a class file. -/
def fits : Instruction → Bool
  | simple _ | constant _ | label _ | line _ _ | frame => true
  | push op _ => op ∈ [Opcode.bipush, .sipush]
  | access op _ => op.opcodeClass ∈ [OpcodeClass.loadLocal, .storeLocal]
  | field op _ => op ∈ [Opcode.getstatic, .putstatic, .getfield, .putfield]
  | call op _ => op.opcodeClass = .invokeMethod
  | jump op _ => op ∈ [Opcode.goto, .ifeq, .ifne, .ifIcmpeq, .ifIcmpne]
  | type op _ => op ∈ [Opcode.new, .checkcast]

/-- The operations that push a constant, other than those that hold it as an operand, have no
operands. -/
theorem eq_simple_of_fits {i : Instruction} {op : Opcode} (fits : i.fits = true)
    (same : i.opcode? = some op) (pushes : op.opcodeClass = .pushConstant)
    (plain : op ≠ .bipush ∧ op ≠ .sipush) : i = simple op := by
  have apart {ops : List Opcode} (listed : decide (op ∈ ops) = true)
      (others : ∀ op ∈ ops, op.opcodeClass ≠ .pushConstant) : False :=
    others op (of_decide_eq_true listed) pushes
  cases i with
  | simple op' => rw [Option.some.inj same]
  | constant | label | line | frame => cases same <;> cases pushes
  | access op' | call op' =>
    obtain rfl := Option.some.inj same
    simp [Instruction.fits, pushes] at fits
  | push op' =>
    obtain rfl := Option.some.inj same
    simp [Instruction.fits, plain] at fits
  | field op' | jump op' | type op' =>
    obtain rfl := Option.some.inj same
    exact (apart fits (by decide)).elim

end Instruction

/-- Operands and operations fit in the whole body. -/
def Method.fits (method : Method) : Bool := method.body.all Instruction.fits

/-- What return-value mutators put in the place of a value. -/
inductive Surrogate where
  | zero | null | empty | truth
deriving DecidableEq

/-- The one surrogate that the value of an instruction may be taken for. A call that boxes needs the
operation before it to tell true from zero. -/
def Instruction.surrogate? (before : Option Opcode) : Instruction → Option Surrogate
  | simple op =>
    if op.isZeroConstant then some .zero
    else if op = .aconstNull then some .null
    else if op = .iconst1 then some .truth
    else none
  | field _ member => if member.name = "TRUE" then some .truth else some .empty
  | call _ member =>
    if member.name = "valueOf" ∧ before = some .iconst1 then some .truth else some .empty
  | access _ _ | constant _ => some .empty
  | _ => none

/-- The surrogate that the value of the last instruction may be taken for. -/
def surrogateLeft? (executed : List Token) : Option Surrogate :=
  executed.getLast?.bind fun last => last.instruction.surrogate? (lastOpcode? executed.dropLast)

namespace Rule

variable {rule rule' : Rule} {surrogate surrogate' : Surrogate} {unit : CompiledUnit}
  {method : Method} {index : Nat} {m m' : Mutation} {executed : List Token} {last : Token}
  {c : Context}

theorem surrogateLeft?_eq (here : executed.getLast? = some last) :
    surrogateLeft? executed = last.instruction.surrogate? (lastOpcode? executed.dropLast) := by
  rw [surrogateLeft?, here, Option.bind_some]

/-- A constant without an operand, pushed right before an index. -/
theorem surrogateLeft?_of_opcodeBefore {op : Opcode} (fits : method.fits = true)
    (before : opcodeBefore method index = some op) (pushes : op.opcodeClass = .pushConstant)
    (plain : op ≠ .bipush ∧ op ≠ .sipush) :
    surrogateLeft? (method.body.executedBefore index) =
      (Instruction.simple op).surrogate? none := by
  obtain ⟨last, found, same⟩ := Option.bind_eq_some_iff.mp before
  have here := Method.realBefore_eq_some found
  have fitting := Array.all_eq_true_iff_forall_mem.mp fits _ (Body.mem_of_getLast? here)
  rw [surrogateLeft?_eq here, Instruction.eq_simple_of_fits fitting same pushes plain]
  rfl

theorem surrogateLeft?_of_trueMotif (found : Query.MatchesEnd executed trueMotif c) :
    surrogateLeft? executed = some .truth := by
  obtain ⟨last, here, ⟨⟨op, descriptor, call⟩, one⟩ | ⟨descriptor, read⟩⟩ :=
    trueMotif_matchesEnd_iff.mp found
  · rw [surrogateLeft?_eq here, call, one]
    rfl
  · rw [surrogateLeft?_eq here, read]
    rfl

theorem surrogateLeft?_of_emptyMotif (found : Query.MatchesEnd executed emptyMotif c) :
    surrogateLeft? executed = some .empty := by
  obtain ⟨last, here, ⟨boxes, zero⟩ | ⟨descriptor, read⟩ | makes⟩ :=
    emptyMotif_matchesEnd_iff.mp found
  · obtain ⟨owner, -, op, descriptor, call⟩ := boxesPrimitive_accepts_iff.mp boxes
    have other : lastOpcode? executed.dropLast ≠ some .iconst1 := fun one => by
      rw [one] at zero
      cases zero
    rw [surrogateLeft?_eq here, call]
    exact if_neg fun boxedOne => other boxedOne.2
  · rw [surrogateLeft?_eq here, read]
    rfl
  · obtain ⟨factory, member, op, descriptor, call, -⟩ := makesEmpty_accepts_iff.mp makes
    have factories : ∀ factory ∈ emptyFactories, factory.2 ≠ "valueOf" := by decide
    rw [surrogateLeft?_eq here, call]
    exact if_neg fun boxedOne => factories factory member boxedOne.1

theorem surrogateLeft?_of_storedEmptyMotif
    (found : Query.MatchesEnd executed storedEmptyMotif c) :
    surrogateLeft? executed = some .empty := by
  obtain ⟨last, number, here, load⟩ := load_of_storedEmptyMotif found
  rw [surrogateLeft?_eq here, load]
  rfl

theorem surrogateLeft?_of_loadsEmptyString (loads : loadsEmptyString method index = true) :
    surrogateLeft? (method.body.executedBefore index) = some .empty := by
  obtain ⟨last, found, text⟩ := (Option.any_eq_true ..).mp loads
  rw [surrogateLeft?_eq (Method.realBefore_eq_some found),
    Instruction.constant_of_constant? (of_decide_eq_true text)]
  rfl

/-- The rule accepts only code that leaves this surrogate. -/
def Recognises (rule : Rule) (surrogate : Surrogate) : Prop :=
  ∀ (m : Mutation) (method : Method), method.fits = true → rule.isEquivalent m method = true →
    surrogateLeft? (method.body.executedBefore m.index.toNat) = some surrogate

theorem primitiveZero_recognises (owned : MutatorSet) : (primitiveZero owned).Recognises .zero := by
  intro m method fits equivalent
  obtain ⟨op, before, zero⟩ := (Option.any_eq_true ..).mp equivalent
  cases op with
  | iconst0 | lconst0 | fconst0 | dconst0 =>
    exact surrogateLeft?_of_opcodeBefore fits before rfl (by decide)
  | _ => cases zero

theorem nullReturns_recognises (owned : MutatorSet) : (nullReturns owned).Recognises .null := by
  intro m method fits equivalent
  exact surrogateLeft?_of_opcodeBefore fits (of_decide_eq_true equivalent) rfl (by decide)

theorem emptyReturns_recognises (owned : MutatorSet) : (emptyReturns owned).Recognises .empty := by
  intro m method fits equivalent
  simp only [emptyReturns, Bool.or_eq_true] at equivalent
  rcases equivalent with (direct | stored) | text
  · obtain ⟨anchor, -, -, found⟩ := (Query.endsBefore_anchored (by decide) method _).mp direct
    exact surrogateLeft?_of_emptyMotif found
  · obtain ⟨anchor, -, -, found⟩ := (Query.endsBefore_anchored (by decide) method _).mp stored
    exact surrogateLeft?_of_storedEmptyMotif found
  · exact surrogateLeft?_of_loadsEmptyString text

theorem hardCodedTrue_recognises (owned : MutatorSet) :
    (hardCodedTrue owned).Recognises .truth := by
  intro m method fits equivalent
  simp only [hardCodedTrue, Bool.or_eq_true, decide_eq_true_eq] at equivalent
  rcases equivalent with primitive | boxed
  · exact surrogateLeft?_of_opcodeBefore fits primitive rfl (by decide)
  · obtain ⟨anchor, -, -, found⟩ := (Query.endsBefore_anchored (by decide) method _).mp boxed
    exact surrogateLeft?_of_trueMotif found

theorem Recognises.not_both (left : rule.Recognises surrogate)
    (left' : rule'.Recognises surrogate') (apart : surrogate ≠ surrogate')
    (fits : method.fits = true) (same : m.index = m'.index) :
    ¬ (rule.isEquivalent m method = true ∧ rule'.isEquivalent m' method = true) := by
  rintro ⟨equivalent, equivalent'⟩
  have here := left m method fits equivalent
  have here' := left' m' method fits equivalent'
  rw [same] at here
  exact apart (Option.some.inj (here.symm.trans here'))

/-- Rules that recognise different surrogates exclude each other. -/
theorem pairwise_of_recognise {rules : List Rule} {surrogates : List Surrogate}
    (recognise : List.Forall₂ Recognises rules surrogates) (apart : surrogates.Nodup)
    (fits : method.fits = true) : rules.Pairwise fun rule rule' =>
      ∀ m m' : Mutation, m.index = m'.index →
        ¬ (rule.isEquivalent m method = true ∧ rule'.isEquivalent m' method = true) := by
  rw [List.pairwise_iff_getElem]
  intro i j within within' before m m' same
  have length := recognise.length_eq
  have left := recognise.get within (length ▸ within)
  have left' := recognise.get within' (length ▸ within')
  refine left.not_both left' (fun equal => ?_) fits same
  have := apart.getElem_inj_iff.mp equal
  omega

theorem Recognises.not_removes_both (left : rule.Recognises surrogate)
    (left' : rule'.Recognises surrogate') (apart : surrogate ≠ surrogate')
    (fits : ∀ method ∈ unit.methods, method.fits = true) (place : m.location = m'.location)
    (same : m.index = m'.index) :
    ¬ (rule.removes unit m = true ∧ rule'.removes unit m' = true) := by
  simp only [removes, Bool.and_eq_true, Option.any_eq_true]
  rintro ⟨⟨-, method, found, equivalent⟩, -, method', found', equivalent'⟩
  rw [place] at found
  obtain rfl := Option.some.inj (found.symm.trans found')
  exact left.not_both left' apart (fits method (List.mem_of_find?_eq_some found)) same
    ⟨equivalent, equivalent'⟩

theorem owned_of_removes (removes : rule.removes unit m = true) :
    rule.owned.contains m.mutator = true := (Bool.and_eq_true_iff.mp removes).1

theorem rules_filter (ids : MutatorIds) :
    (ReturnEquivalence.filter ids).rules = ReturnEquivalence.rules ids := rfl

theorem recognises_of_ownsTrue (member : rule ∈ ReturnEquivalence.rules {})
    (owned : rule.owned.contains "TRUE_RETURNS" = true) : rule.Recognises .truth := by
  have byZero : ({} : MutatorIds).zeroSet.contains "TRUE_RETURNS" = false := by cbv
  have byNull : ({} : MutatorIds).nullSet.contains "TRUE_RETURNS" = false := by cbv
  have byEmpty : ({} : MutatorIds).emptySet.contains "TRUE_RETURNS" = false := by cbv
  simp only [ReturnEquivalence.rules, List.mem_cons, List.not_mem_nil, or_false] at member
  rcases member with rfl | rfl | rfl | rfl
  · cases byZero.symm.trans owned
  · cases byNull.symm.trans owned
  · cases byEmpty.symm.trans owned
  · exact hardCodedTrue_recognises _

theorem recognises_of_ownsFalse (member : rule ∈ ReturnEquivalence.rules {})
    (owned : rule.owned.contains "FALSE_RETURNS" = true) :
    rule.Recognises .zero ∨ rule.Recognises .empty := by
  have byNull : ({} : MutatorIds).nullSet.contains "FALSE_RETURNS" = false := by cbv
  have byTrue : ({} : MutatorIds).trueSet.contains "FALSE_RETURNS" = false := by cbv
  simp only [ReturnEquivalence.rules, List.mem_cons, List.not_mem_nil, or_false] at member
  rcases member with rfl | rfl | rfl | rfl
  · exact .inl (primitiveZero_recognises _)
  · cases byNull.symm.trans owned
  · exact .inr (emptyReturns_recognises _)
  · cases byTrue.symm.trans owned

/-- Where operations and operands fit, no two of the four rules accept mutants of one instruction.
So of two mutants of one return that return true and false, at least one is kept. -/
theorem verdicts_exclusive :
    (∀ method : Method, method.fits = true → ∀ zeroSet nullSet emptySet trueSet : MutatorSet,
      [primitiveZero zeroSet, nullReturns nullSet, emptyReturns emptySet,
        hardCodedTrue trueSet].Pairwise fun rule rule' => ∀ m m' : Mutation, m.index = m'.index →
          ¬ (rule.isEquivalent m method = true ∧ rule'.isEquivalent m' method = true)) ∧
      ∀ unit : CompiledUnit, (∀ method ∈ unit.methods, method.fits = true) → ∀ batch kept,
        (((ReturnEquivalence.filter {}).begin unit).sift batch).result = .ok kept →
          ∀ m ∈ batch, ∀ m' ∈ batch, m.mutator = "TRUE_RETURNS" → m'.mutator = "FALSE_RETURNS" →
            m.location = m'.location → m.index = m'.index → m ∈ kept ∨ m' ∈ kept := by
  constructor
  · intro method fits zeroSet nullSet emptySet trueSet
    have recognise : List.Forall₂ Recognises
        [primitiveZero zeroSet, nullReturns nullSet, emptyReturns emptySet, hardCodedTrue trueSet]
        [.zero, .null, .empty, .truth] :=
      .cons (primitiveZero_recognises _) <| .cons (nullReturns_recognises _) <|
        .cons (emptyReturns_recognises _) <| .cons (hardCodedTrue_recognises _) .nil
    exact pairwise_of_recognise recognise (by decide) fits
  · intro unit fits batch kept sifted m inBatch m' inBatch' returnsTrue returnsFalse place same
    rw [Filter.begin_result, rules_filter] at sifted
    by_contra gone
    obtain ⟨goneTrue, goneFalse⟩ := not_or.mp gone
    obtain ⟨rule, member, removes⟩ := unit.exists_removes sifted inBatch goneTrue
    obtain ⟨rule', member', removes'⟩ := unit.exists_removes sifted inBatch' goneFalse
    have truth := recognises_of_ownsTrue member (returnsTrue ▸ owned_of_removes removes)
    rcases recognises_of_ownsFalse member' (returnsFalse ▸ owned_of_removes removes') with
      zero | empty
    · exact truth.not_removes_both zero (by decide) fits place same ⟨removes, removes'⟩
    · exact truth.not_removes_both empty (by decide) fits place same ⟨removes, removes'⟩

/-- A class with one method, which returns a boxed true. -/
def boxedTrue : CompiledUnit :=
  ⟨"a/B", [⟨⟨"a/B", "m", "()Ljava/lang/Boolean;"⟩,
    #[.simple .iconst1, .invokeStatic booleanType "valueOf" "(Z)Ljava/lang/Boolean;", .line 7 0,
      .simple .areturn]⟩]⟩

/-- The mutant that returns true from that method. -/
def trueMutant : Mutation :=
  ⟨"TRUE_RETURNS", 3, ⟨"a/B", "m", "()Ljava/lang/Boolean;"⟩, none, none⟩

/-- The mutant that returns false instead. -/
def falseMutant : Mutation := { trueMutant with mutator := "FALSE_RETURNS" }

theorem verdicts_exclusive_boxedTrue :
    (∀ method ∈ boxedTrue.methods, method.fits = true ∧
      (hardCodedTrue ({} : MutatorIds).trueSet).isEquivalent trueMutant method = true ∧
      ¬ (emptyReturns ({} : MutatorIds).emptySet).isEquivalent falseMutant method = true) ∧
    ∃ kept, (((ReturnEquivalence.filter {}).begin boxedTrue).sift
      [trueMutant, falseMutant]).result = .ok kept ∧ trueMutant ∉ kept ∧ falseMutant ∈ kept := by
  have fits : ∀ method ∈ boxedTrue.methods, method.fits = true :=
    List.forall_mem_singleton.mpr (by cbv)
  have equivalent : ∀ method ∈ boxedTrue.methods,
      (hardCodedTrue ({} : MutatorIds).trueSet).isEquivalent trueMutant method = true :=
    List.forall_mem_singleton.mpr (by cbv)
  constructor
  · intro method member
    have pairwise := verdicts_exclusive.1 method (fits method member) ({} : MutatorIds).zeroSet
      ({} : MutatorIds).nullSet ({} : MutatorIds).emptySet ({} : MutatorIds).trueSet
    have notBoth := List.pairwise_iff_getElem.mp pairwise 2 3 (by decide) (by decide) (by decide)
      falseMutant trueMutant rfl
    exact ⟨fits method member, equivalent method member, fun empty =>
      notBoth ⟨empty, equivalent method member⟩⟩
  · have misses : (ReturnEquivalence.rules {}).findSome? (fun rule =>
        [trueMutant, falseMutant].find? (rule.misses boxedTrue)) = none := by cbv
    have sifted := (ReturnEquivalence.filter {}).begin_result boxedTrue [trueMutant, falseMutant]
    rw [CompiledUnit.sieve, rules_filter, misses] at sifted
    have removed : (hardCodedTrue ({} : MutatorIds).trueSet).removes boxedTrue trueMutant = true :=
      by cbv
    have gone : (ReturnEquivalence.rules {}).any (·.removes boxedTrue trueMutant) = true :=
      List.any_eq_true.mpr ⟨_, .tail _ (.tail _ (.tail _ (.head _))), removed⟩
    have notKept : trueMutant ∉ [trueMutant, falseMutant].filter fun m =>
        !(ReturnEquivalence.rules {}).any (·.removes boxedTrue m) := by
      simp [gone]
    have kept := verdicts_exclusive.2 boxedTrue fits _ _ sifted trueMutant (.head _)
      falseMutant (.tail _ (.head _)) rfl rfl rfl rfl
    exact ⟨_, sifted, notKept, kept.resolve_left notKept⟩

end Rule

end MutantSieve
