import MutantSieve.Feature.Selector
import MutantSieve.Feature.SettingText
import MutantSieve.Pattern.Matcher
import MutantSieve.Proofs.Text.Reading

namespace MutantSieve

namespace Text

theorem not_mem_digits {c : Char} (other : c.isDigit = false) (n : Nat) :
    c ∉ Nat.toDigits 10 n := by
  intro member
  have digit := Nat.isDigit_of_mem_toDigits (by decide) (by decide) member
  rw [other] at digit
  cases digit

theorem digits_inj {m n : Nat} : Nat.toDigits 10 m = Nat.toDigits 10 n ↔ m = n := by
  refine ⟨fun same => ?_, congrArg _⟩
  have read := congrArg (Nat.ofDigitChars 10 · 0) same
  simpa only [Nat.ofDigitChars_ten_toDigits] using read

end Text

/-- A location whose parts can be told apart in its text. -/
structure Location.IsLegible (location : Location) : Prop where
  className : ':' ∉ location.className.toList
  methodName : '(' ∉ location.methodName.toList
  descriptor : ∃ rest, location.descriptor.toList = '(' :: rest

namespace Location

variable {a b : Location}

theorem toList_text (location : Location) : location.text.toList =
    location.className.toList ++ ':' :: ':' ::
      (location.methodName.toList ++ location.descriptor.toList) := by
  simp [text]

/-- The text of a location names its class, its method and its descriptor. -/
theorem text_eq_iff (legible : a.IsLegible) (legible' : b.IsLegible) : a.text = b.text ↔ a = b := by
  refine ⟨fun same => ?_, congrArg text⟩
  have lists := congrArg String.toList same
  rw [toList_text, toList_text] at lists
  obtain ⟨classes, methods⟩ := Text.upTo_unique legible.className legible'.className lists
  obtain ⟨parameters, opening⟩ := legible.descriptor
  obtain ⟨parameters', opening'⟩ := legible'.descriptor
  have methods := (List.cons.inj methods).2
  rw [opening, opening'] at methods
  obtain ⟨names, behind⟩ := Text.upTo_unique legible.methodName legible'.methodName methods
  have descriptors : a.descriptor.toList = b.descriptor.toList := by rw [opening, opening', behind]
  cases a
  cases b
  simp only [Location.mk.injEq]
  exact ⟨String.toList_inj.mp classes, String.toList_inj.mp names, String.toList_inj.mp descriptors⟩

/-- Without the conditions, a colon may belong to the class or to the method. -/
example : (⟨"a", "b::c", "()V"⟩ : Location).text = (⟨"a::b", "c", "()V"⟩ : Location).text := by
  decide

end Location

namespace Mutation

variable {a b : Mutation}

/-- The end of the text of a mutation. -/
def lineText (m : Mutation) : List Char :=
  (m.line.elim "" fun line => " line " ++ toString line.toNat).toList

theorem toList_text (m : Mutation) : m.text.toList =
    m.mutator.toList ++ ' ' :: ("at ".toList ++ (m.location.text.toList ++
      '[' :: (Nat.toDigits 10 m.index.toNat ++ ']' :: m.lineText))) := by
  simp [text, lineText]

theorem not_mem_lineText (m : Mutation) : '[' ∉ m.lineText := by
  unfold lineText
  cases m.line with
  | none => simp
  | some line => simpa using Text.not_mem_digits rfl line.toNat

theorem lineText_eq_iff : a.lineText = b.lineText ↔ a.line = b.line := by
  unfold lineText
  cases a.line with
  | none => cases b.line <;> simp
  | some line =>
    cases b.line with
    | none => simp
    | some line' => simp [Text.digits_inj, UInt32.toNat_inj]

/-- The text of a mutation names its mutator and its instruction, and all else but the
description. -/
theorem text_eq_iff (oneWord : ' ' ∉ a.mutator.toList) (oneWord' : ' ' ∉ b.mutator.toList)
    (legible : a.location.IsLegible) (legible' : b.location.IsLegible) :
    a.text = b.text ↔ a.mutator = b.mutator ∧ a.location = b.location ∧ a.index = b.index ∧
      a.line = b.line := by
  refine ⟨fun same => ?_, fun ⟨mutators, locations, indices, lines⟩ => ?_⟩
  · have lists := congrArg String.toList same
    rw [toList_text, toList_text] at lists
    obtain ⟨mutators, places⟩ := Text.upTo_unique oneWord oneWord' lists
    have places := List.append_cancel_left places
    -- The bracket in front of the index is the last one: those of array types come before it.
    have last (m : Mutation) : '[' ∉ Nat.toDigits 10 m.index.toNat ++ ']' :: m.lineText := by
      simp [Text.not_mem_digits, m.not_mem_lineText]
    obtain ⟨locations, ends⟩ := Text.fromLast_unique (last a) (last b) places
    obtain ⟨indices, lines⟩ :=
      Text.upTo_unique (Text.not_mem_digits rfl _) (Text.not_mem_digits rfl _) ends
    exact ⟨String.toList_inj.mp mutators,
      (Location.text_eq_iff legible legible').mp (String.toList_inj.mp locations),
      UInt64.toNat_inj.mp (Text.digits_inj.mp indices), lineText_eq_iff.mp lines⟩
  · rw [text, text, mutators, locations, indices, lines]

end Mutation

/-- A log entry whose names can be told apart in its text. -/
def Event.IsLegible : Event → Prop
  | removed rule _ => ':' ∉ rule.toList
  | reduced _ _ => True
  | disabled feature => ':' ∉ feature.toList

namespace Event

theorem toList_message_removed (rule : String) (m : Mutation) :
    (removed rule m).message.toList =
      rule.toList ++ ':' :: (" filtered equivalent mutant ".toList ++ m.text.toList) := by
  unfold message
  simp

theorem toList_message_reduced (count total : Nat) : (reduced count total).message.toList =
    Nat.toDigits 10 count ++ ' ' :: ("of ".toList ++
      (Nat.toDigits 10 total ++ ' ' :: "mutations removed".toList)) := by
  unfold message
  simp

theorem toList_message_disabled (feature : String) : (disabled feature).message.toList =
    'f' :: ("eature ".toList ++ (feature.toList ++ " disabled".toList)) := by
  unfold message
  simp

theorem not_mem_message_reduced (count total : Nat) :
    ':' ∉ (reduced count total).message.toList := by
  simp [toList_message_reduced, Text.not_mem_digits]

theorem not_mem_message_disabled {feature : String} (legible : (disabled feature).IsLegible) :
    ':' ∉ (disabled feature).message.toList := by
  have named : ':' ∉ feature.toList := legible
  simp [toList_message_disabled, named]

theorem mem_message_removed (rule : String) (m : Mutation) :
    ':' ∈ (removed rule m).message.toList := by
  simp [toList_message_removed]

theorem message_reduced_ne_disabled {count total : Nat} {feature : String} :
    (reduced count total).message ≠ (disabled feature).message := by
  intro same
  have lists := congrArg String.toList same
  rw [toList_message_reduced, toList_message_disabled] at lists
  cases digits : Nat.toDigits 10 count with
  | nil => exact Nat.toDigits_ne_nil digits
  | cons digit others =>
    rw [digits, List.cons_append] at lists
    have first : 'f' ∈ Nat.toDigits 10 count := by
      rw [digits, (List.cons.inj lists).1]
      exact List.mem_cons_self ..
    exact Text.not_mem_digits rfl count first

/-- The text of a log entry names the rule and the mutation, or the numbers, or the feature. -/
theorem message_eq_iff {e e' : Event} (legible : e.IsLegible) (legible' : e'.IsLegible) :
    e.message = e'.message ↔ match e, e' with
      | removed rule m, removed rule' m' => rule = rule' ∧ m.text = m'.text
      | reduced count total, reduced count' total' => count = count' ∧ total = total'
      | disabled feature, disabled feature' => feature = feature'
      | _, _ => False := by
  rw [← String.toList_inj]
  cases e with
  | removed rule m =>
    have colon := mem_message_removed rule m
    cases e' with
    | removed rule' m' =>
      rw [toList_message_removed, toList_message_removed]
      refine ⟨fun same => ?_, fun ⟨rules, texts⟩ => by rw [rules, texts]⟩
      obtain ⟨rules, texts⟩ := Text.upTo_unique legible legible' same
      exact ⟨String.toList_inj.mp rules, String.toList_inj.mp (List.append_cancel_left texts)⟩
    | reduced count' total' =>
      exact iff_of_false (fun same => not_mem_message_reduced _ _ (same ▸ colon)) id
    | disabled feature' =>
      exact iff_of_false (fun same => not_mem_message_disabled legible' (same ▸ colon)) id
  | reduced count total =>
    cases e' with
    | removed rule' m' =>
      have colon := mem_message_removed rule' m'
      exact iff_of_false (fun same => not_mem_message_reduced _ _ (same ▸ colon)) id
    | reduced count' total' =>
      rw [toList_message_reduced, toList_message_reduced]
      refine ⟨fun same => ?_, fun ⟨counts, totals⟩ => by rw [counts, totals]⟩
      have space (n : Nat) : ' ' ∉ Nat.toDigits 10 n := Text.not_mem_digits rfl n
      obtain ⟨counts, rest⟩ := Text.upTo_unique (space count) (space count') same
      obtain ⟨totals, _⟩ :=
        Text.upTo_unique (space total) (space total') (List.append_cancel_left rest)
      exact ⟨Text.digits_inj.mp counts, Text.digits_inj.mp totals⟩
    | disabled feature' =>
      exact iff_of_false (fun same => message_reduced_ne_disabled (String.toList_inj.mp same)) id
  | disabled feature =>
    cases e' with
    | removed rule' m' =>
      have colon := mem_message_removed rule' m'
      exact iff_of_false (fun same => not_mem_message_disabled legible (same ▸ colon)) id
    | reduced count' total' =>
      exact iff_of_false
        (fun same => message_reduced_ne_disabled (String.toList_inj.mp same).symm) id
    | disabled feature' => simp [toList_message_disabled, String.toList_inj]

end Event

/-- An error whose names can be told apart in its text. -/
def FilterError.IsLegible : FilterError → Prop
  | methodNotFound unit location => ':' ∉ unit.toList ∧ location.IsLegible
  | noActiveUnit => True

/-- The text of a filter error names the unit and the location that has no method, if that is what
is wrong. -/
theorem FilterError.message_eq_iff {e e' : FilterError} (legible : e.IsLegible)
    (legible' : e'.IsLegible) : e.message = e'.message ↔ e = e' := by
  have missing (unit : String) (location : Location) :
      (methodNotFound unit location).message.toList =
        "Method not found in ".toList ++ (unit.toList ++ ':' :: ' ' :: location.text.toList) := by
    unfold message
    simp
  have outside : noActiveUnit.message = "Interceptor used outside of begin/end" := rfl
  refine ⟨fun same => ?_, congrArg message⟩
  have lists := congrArg String.toList same
  cases e with
  | noActiveUnit =>
    cases e' with
    | noActiveUnit => rfl
    | methodNotFound unit location => simp [missing, outside] at lists
  | methodNotFound unit location =>
    cases e' with
    | noActiveUnit => simp [missing, outside] at lists
    | methodNotFound unit' location' =>
      obtain ⟨named, placed⟩ := legible
      obtain ⟨named', placed'⟩ := legible'
      rw [missing, missing] at lists
      obtain ⟨units, places⟩ :=
        Text.upTo_unique named named' (List.append_cancel_left lists)
      have texts := String.toList_inj.mp (List.cons.inj places).2
      rw [String.toList_inj.mp units, (Location.text_eq_iff placed placed').mp texts]

/-- The text of a query error names what is wrong and the slot. -/
theorem QueryError.message_eq_iff {e e' : QueryError} : e.message = e'.message ↔
    match e, e' with
    | .unboundSlot slot, .unboundSlot slot' => slot.name = slot'.name
    | .capturingIgnore slot, .capturingIgnore slot' => slot.name = slot'.name
    | _, _ => False := by
  rw [← String.toList_inj]
  unfold message
  cases e with
  | unboundSlot slot =>
    cases e' with
    | unboundSlot slot' => simp [String.toList_inj]
    | capturingIgnore slot' => simp
  | capturingIgnore slot =>
    cases e' with
    | unboundSlot slot' => simp
    | capturingIgnore slot' => simp [String.toList_inj]

/-- The text of the error names the feature. -/
theorem UnknownFeature.message_eq_iff {e e' : UnknownFeature} :
    e.message = e'.message ↔ e = e' := by
  obtain ⟨name⟩ := e
  obtain ⟨name'⟩ := e'
  unfold message
  simp

/-- No two faults have the same text. -/
theorem SettingFault.message_eq_iff {fault fault' : SettingFault} :
    fault.message = fault'.message ↔ fault = fault' := by
  cases fault <;> cases fault' <;> decide

/-- The text of an error in a setting names the fault and its position. -/
theorem SettingError.message_eq_iff {e e' : SettingError} : e.message = e'.message ↔ e = e' := by
  refine ⟨fun same => ?_, congrArg message⟩
  have parts (e : SettingError) : e.message.toList =
      ("Feature parse error: " ++ e.fault.message ++ " at position").toList ++
        ' ' :: Nat.toDigits 10 e.position := by
    unfold message
    simp
  have lists := congrArg String.toList same
  rw [parts, parts] at lists
  obtain ⟨faults, positions⟩ :=
    Text.fromLast_unique (Text.not_mem_digits rfl _) (Text.not_mem_digits rfl _) lists
  have faults : e.fault.message = e'.fault.message := by
    simpa using String.toList_inj.mp faults
  cases e
  cases e'
  simp only [SettingError.mk.injEq]
  exact ⟨SettingFault.message_eq_iff.mp faults, Text.digits_inj.mp positions⟩

end MutantSieve
