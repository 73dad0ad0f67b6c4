import MutantSieve.Proofs.Json.RoundTrip

namespace MutantSieve

open JsonForm

theorem exists_mem_of_mapM {α β : Type} {read : α → Option β} {items : List α} {values : List β}
    {value : β} (all : items.mapM read = some values) (member : value ∈ values) :
    ∃ item ∈ items, read item = some value := by
  induction items generalizing values with
  | nil =>
    rw [List.mapM_nil] at all
    cases all
    cases member
  | cons item items ih =>
    rw [List.mapM_cons] at all
    obtain ⟨first, readFirst, others⟩ := Option.bind_eq_some_iff.mp all
    obtain ⟨rest, readRest, same⟩ := Option.bind_eq_some_iff.mp others
    cases same
    rcases List.mem_cons.mp member with rfl | later
    · exact ⟨item, List.mem_cons_self .., readFirst⟩
    · obtain ⟨other, within, found⟩ := ih readRest later
      exact ⟨other, List.mem_cons_of_mem _ within, found⟩

namespace Json

/-- Every number in the value is finite in both precisions. -/
inductive Finite : Json → Prop
  | null : Finite null
  | bool {value} : Finite (bool value)
  | integer {n} : (Binary32.ofInt n).isFinite = true → (Binary64.ofInt n).isFinite = true →
      Finite (integer n)
  | real {x} : x.narrow.isFinite = true → x.isFinite = true → Finite (real x)
  | string {text} : Finite (string text)
  | array {items} : (∀ item ∈ items, Finite item) → Finite (array items)
  | object {fields} : (∀ field ∈ fields, Finite field.2) → Finite (object fields)

variable {j value : Json} {name : String} {names : List String} {values : List (Option Json)}

theorem finite_array {items : List Json} :
    (array items).Finite ↔ ∀ item ∈ items, item.Finite := by
  refine ⟨fun finite => ?_, .array⟩
  cases finite with
  | array each => exact each

theorem finite_object {fields : List (String × Json)} :
    (object fields).Finite ↔ ∀ field ∈ fields, field.2.Finite := by
  refine ⟨fun finite => ?_, .object⟩
  cases finite with
  | object each => exact each

theorem Finite.binary32? (finite : j.Finite) {x : Binary32} (read : j.binary32? = some x) :
    x.isFinite = true := by
  cases finite with
  | integer single | real single => exact Option.some.inj read ▸ single
  | _ => cases read

theorem Finite.binary64? (finite : j.Finite) {x : Binary64} (read : j.binary64? = some x) :
    x.isFinite = true := by
  cases finite with
  | integer _ double | real _ double => exact Option.some.inj read ▸ double
  | _ => cases read

theorem Finite.fields? (finite : j.Finite) (read : j.fields? names = some values)
    (member : some value ∈ values) : value.Finite := by
  cases j with
  | object fields =>
    cases read
    obtain ⟨name, -, found⟩ := List.mem_map.mp member
    obtain ⟨field, here, rfl⟩ := Option.map_eq_some_iff.mp found
    exact finite_object.mp finite field (List.mem_of_find?_eq_some here)
  | _ => cases read

theorem Finite.record? (finite : j.Finite) (read : j.record? names = some values)
    (member : some value ∈ values) : value.Finite := by
  cases j with
  | array items =>
    rw [Json.record?] at read
    split at read
    · cases read
      obtain ⟨i, -, found⟩ := List.mem_mapIdx.mp member
      exact finite_array.mp finite value (List.mem_of_getElem? found)
    · cases read
  | object fields =>
    have ofObject : Json.fields? names (Json.object fields) = some values := read
    exact finite.fields? ofObject member
  | _ => cases read

theorem Finite.alternative? (finite : j.Finite) (read : j.alternative? = some (name, some value)) :
    value.Finite := by
  unfold Json.alternative? at read
  split at read
  · cases read
  · cases read
    exact finite_object.mp finite _ (List.mem_singleton_self _)
  · cases read

theorem Finite.decode_list {α : Type} [JsonForm α] {items : List α} {x : α} (finite : j.Finite)
    (read : decode j = some items) (member : x ∈ items) :
    ∃ item : Json, item.Finite ∧ decode item = some x := by
  cases j with
  | array items =>
    obtain ⟨item, within, found⟩ := exists_mem_of_mapM read member
    exact ⟨item, finite_array.mp finite item within, found⟩
  | _ => cases read

end Json

variable {j : Json}

theorem isFinite_of_decode_constant {value : Constant} (finite : j.Finite)
    (read : decode j = some value) : value.isFinite = true := by
  change Constant.decode j = some value at read
  unfold Constant.decode at read
  split at read
  case h_3 written =>
    obtain ⟨x, readNumber, rfl⟩ := Option.map_eq_some_iff.mp read
    exact (finite.alternative? written).binary32? readNumber
  case h_4 written =>
    obtain ⟨x, readNumber, rfl⟩ := Option.map_eq_some_iff.mp read
    exact (finite.alternative? written).binary64? readNumber
  case h_7 => cases read
  all_goals
    obtain ⟨_, -, rfl⟩ := Option.map_eq_some_iff.mp read
    rfl

theorem isFinite_of_decode_instruction {i : Instruction} (finite : j.Finite)
    (read : decode j = some i) : i.isFinite = true := by
  change Instruction.decode j = some i at read
  unfold Instruction.decode at read
  split at read
  case h_6 written =>
    obtain ⟨value, readValue, rfl⟩ := Option.map_eq_some_iff.mp read
    exact isFinite_of_decode_constant (finite.alternative? written) readValue
  case h_10 =>
    split at read
    · obtain ⟨number, -, others⟩ := Option.bind_eq_some_iff.mp read
      obtain ⟨start, -, same⟩ := Option.bind_eq_some_iff.mp others
      cases same
      rfl
    · cases read
  case h_11 | h_12 =>
    cases read
    rfl
  case h_13 => cases read
  all_goals
    obtain ⟨_, -, rfl⟩ := Option.map_eq_some_iff.mp read
    rfl

theorem isFinite_of_decode_method {method : Method} (finite : j.Finite)
    (read : decode j = some method) : method.isFinite = true := by
  simp only [decode] at read
  split at read
  · next location body fields =>
    obtain ⟨_, -, others⟩ := Option.bind_eq_some_iff.mp read
    obtain ⟨instructions, readBody, same⟩ := Option.bind_eq_some_iff.mp others
    cases same
    obtain ⟨items, readItems, rfl⟩ := Option.map_eq_some_iff.mp readBody
    refine Array.all_eq_true_iff_forall_mem.mpr fun i member => ?_
    obtain ⟨item, finite, readItem⟩ :=
      (finite.record? fields (.tail _ (.head _))).decode_list readItems
        (List.mem_toArray.mp member)
    exact isFinite_of_decode_instruction finite readItem
  · cases read

theorem isFinite_of_decode {unit : CompiledUnit} (finite : j.Finite)
    (read : decode j = some unit) : unit.isFinite = true := by
  simp only [decode] at read
  split at read
  · next name methods fields =>
    obtain ⟨_, -, others⟩ := Option.bind_eq_some_iff.mp read
    obtain ⟨_, readMethods, same⟩ := Option.bind_eq_some_iff.mp others
    cases same
    refine List.all_eq_true.mpr fun method member => ?_
    obtain ⟨item, finite, readItem⟩ :=
      (finite.record? fields (.tail _ (.head _))).decode_list readMethods member
    exact isFinite_of_decode_method finite readItem
  · cases read

namespace JsonForm

/-- The values with a property are read back from their written forms, and whatever a JSON value was
like that such a value is read from, one reading settles it: from then on the value and its written
form stay the same. -/
structure RoundTrips (α : Type) [JsonForm α] (P : α → Prop) : Prop where
  restores (x : α) : P x → decode (encode x) = some x
  settles (j : Json) (x : α) : decode j = some x → P x →
    ∃ y : α, decode (encode x) = some y ∧ y = x ∧ encode y = encode x

theorem RoundTrips.of_restores {α : Type} [JsonForm α] {P : α → Prop}
    (restores : ∀ x : α, P x → decode (encode x) = some x) : RoundTrips α P where
  restores := restores
  settles _ x _ holds := ⟨x, restores x holds, rfl, rfl⟩

/-- Units with finite constants, mutations, sets of mutators and their ids, features and settings
are read back from their written forms, however the JSON value was spelled that they were first read
from. A JSON value with finite numbers gives a unit with finite constants. -/
theorem writtenForms_roundTrip :
    RoundTrips CompiledUnit (fun unit => unit.isFinite = true) ∧
      (∀ (j : Json) (unit : CompiledUnit), j.Finite → decode j = some unit →
        unit.isFinite = true) ∧
      RoundTrips Mutation (fun _ => True) ∧ RoundTrips MutatorSet (fun _ => True) ∧
      RoundTrips MutatorIds (fun _ => True) ∧ RoundTrips Feature (fun _ => True) ∧
      RoundTrips FeatureSetting (fun _ => True) :=
  ⟨.of_restores fun _ finite => decode_encode_unit finite,
    fun _ _ finite read => isFinite_of_decode finite read,
    .of_restores fun m _ => decode_encode_mutation m,
    .of_restores fun set _ => decode_encode_mutatorSet set,
    .of_restores fun ids _ => decode_encode_mutatorIds ids,
    .of_restores fun feature _ => decode_encode_feature feature,
    .of_restores fun setting _ => decode_encode_setting setting⟩

/-- A unit written as an array, with a method that has an unknown field and a whole number for a
floating-point constant. -/
def looseUnit : Json :=
  .array [.string "a/B", .array [.object [("note", .bool true),
    ("instructions", .array [.alternative "Ldc" (.alternative "Float" (.integer 1)),
      .alternative "Frame" .null, .alternative "Insn" (.string "Freturn")]),
    ("location", .array [.string "a/B", .string "m", .string "()F"])]]]

/-- The unit that it is read as. -/
def readUnit : CompiledUnit :=
  ⟨"a/B", [⟨⟨"a/B", "m", "()F"⟩,
    #[.constant (.float ⟨0x3F800000⟩), .frame, .simple .freturn]⟩]⟩

theorem writtenForms_roundTrip_looseUnit : looseUnit.Finite ∧
    decode looseUnit = some readUnit ∧ readUnit.isFinite = true ∧
      ∃ unit : CompiledUnit, decode (encode readUnit) = some unit ∧ unit = readUnit ∧
        encode unit = encode readUnit := by
  have one : (Binary32.ofInt 1).isFinite = true ∧ (Binary64.ofInt 1).isFinite = true := by decide
  have finite : looseUnit.Finite := by
    simp [looseUnit, Json.alternative, Json.finite_array, Json.finite_object, Json.Finite.null,
      Json.Finite.bool, Json.Finite.string, Json.Finite.integer one.1 one.2]
  have read : decode looseUnit = some readUnit := by rfl
  have finiteUnit := writtenForms_roundTrip.2.1 looseUnit readUnit finite read
  have again := writtenForms_roundTrip.1.settles looseUnit readUnit read finiteUnit
  exact ⟨finite, read, finiteUnit, again⟩

end JsonForm

end MutantSieve
