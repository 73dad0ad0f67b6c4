import MutantSieve.Json.Feature
import MutantSieve.Json.Mutation
import MutantSieve.Proofs.BinaryFloat.Widening
import MutantSieve.SortedMap.Lemmas

namespace MutantSieve

open JsonForm

/-- A constant that JSON can hold: any but an infinite number or what is not a number. -/
def Constant.isFinite : Constant → Bool
  | float x => x.isFinite
  | double x => x.isFinite
  | _ => true

/-- The constant that is loaded, if any, is finite. -/
def Instruction.isFinite (i : Instruction) : Bool := i.constant?.all Constant.isFinite

/-- All constants in the body are finite. -/
def Method.isFinite (method : Method) : Bool := method.body.all Instruction.isFinite

/-- All constants in the methods are finite. -/
def CompiledUnit.isFinite (unit : CompiledUnit) : Bool := unit.methods.all Method.isFinite

section Basic

variable {α : Type}

theorem decode_encode_uint32 (n : UInt32) : decode (encode n) = some n := by
  have within := n.toNat_lt
  change (Json.integer? 0 4294967295 (.integer n.toNat)).map (UInt32.ofNat ·.toNat) = some n
  rw [Json.integer?, if_pos (by omega), Option.map_some, Int.toNat_natCast, UInt32.ofNat_toNat]

theorem decode_encode_uint64 (n : UInt64) : decode (encode n) = some n := by
  have within := n.toNat_lt
  change (Json.integer? 0 18446744073709551615 (.integer n.toNat)).map
    (UInt64.ofNat ·.toNat) = some n
  rw [Json.integer?, if_pos (by omega), Option.map_some, Int.toNat_natCast, UInt64.ofNat_toNat]

theorem decode_encode_int32 (n : Int32) : decode (encode n) = some n := by
  have low := n.le_toInt
  have high := n.toInt_lt
  change (Json.integer? (-2147483648) 2147483647 (.integer n.toInt)).map Int32.ofInt = some n
  rw [Json.integer?, if_pos (by omega), Option.map_some, Int32.ofInt_toInt]

theorem decode_encode_int64 (n : Int64) : decode (encode n) = some n := by
  have low := n.le_toInt
  have high := n.toInt_lt
  change (Json.integer? (-9223372036854775808) 9223372036854775807 (.integer n.toInt)).map
    Int64.ofInt = some n
  rw [Json.integer?, if_pos (by omega), Option.map_some, Int64.ofInt_toInt]

theorem decode_encode_string (text : String) : decode (encode text) = some text := rfl

theorem decode_encode_list [JsonForm α] {items : List α}
    (each : ∀ x ∈ items, decode (encode x) = some x) : decode (encode items) = some items := by
  change (items.map encode).mapM decode = some items
  induction items with
  | nil => rfl
  | cons x items ih =>
    have first := each x (List.mem_cons_self ..)
    have rest := ih fun y member => each y (List.mem_cons_of_mem _ member)
    rw [List.map_cons, List.mapM_cons, first, rest]
    rfl

theorem decode_encode_array [JsonForm α] {items : Array α}
    (each : ∀ x ∈ items, decode (encode x) = some x) : decode (encode items) = some items := by
  change (decode (encode items.toList) : Option (List α)).map List.toArray = some items
  rw [decode_encode_list fun x member => each x (Array.mem_toList_iff.mp member)]
  rfl

/-- Where names differ, the name of an alternative tells which one it is. -/
theorem decodeName_string {all : List α} {name : α → String} {a : α} (listed : a ∈ all)
    (distinct : (all.map name).Nodup) : Json.decodeName all name (.string (name a)) = some a := by
  change all.find? (name · = name a) = some a
  induction all with
  | nil => cases listed
  | cons b all ih =>
    obtain ⟨new, distinct⟩ := List.nodup_cons.mp distinct
    rcases List.mem_cons.mp listed with rfl | later
    · simp
    · have other : name b ≠ name a := fun same => new (same ▸ List.mem_map_of_mem later)
      rw [List.find?_cons_of_neg (by simpa using other)]
      exact ih later distinct

end Basic

section Bytecode

theorem Opcode.mem_all (op : Opcode) : op ∈ Opcode.all := by cases op <;> decide

theorem Opcode.names_nodup : (Opcode.all.map Opcode.name).Nodup := by decide +kernel

theorem decode_encode_opcode (op : Opcode) : decode (encode op) = some op :=
  decodeName_string op.mem_all Opcode.names_nodup

theorem decode_encode_memberRef (member : MemberRef) : decode (encode member) = some member := rfl

theorem decode_encode_location (location : Location) :
    decode (encode location) = some location := rfl

theorem decode_encode_constant {value : Constant} (finite : value.isFinite = true) :
    decode (encode value) = some value := by
  cases value with
  | int n => exact congrArg (Option.map Constant.int) (decode_encode_int32 n)
  | long n => exact congrArg (Option.map Constant.long) (decode_encode_int64 n)
  | float x =>
    have written : Json.ofBinary64 x.widen = .real x.widen := if_pos (x.isFinite_widen finite)
    change (Json.ofBinary64 x.widen).binary32?.map Constant.float = _
    rw [written, Json.binary32?, Option.map_some, x.narrow_widen finite]
  | double x =>
    have written : Json.ofBinary64 x = .real x := if_pos finite
    change (Json.ofBinary64 x).binary64?.map Constant.double = _
    rw [written]
    rfl
  | string text | type name => rfl

theorem decodeOperand_encode {α : Type} [JsonForm α] (name : String) {operand : α} (op : Opcode)
    (other : name ≠ "opcode") (reads : decode (encode operand) = some operand) :
    Instruction.decodeOperand name
      (.object [("opcode", encode op), (name, encode operand)]) = some (op, operand) := by
  have fields : (Json.object [("opcode", encode op), (name, encode operand)]).fields?
      ["opcode", name] = some [some (encode op), some (encode operand)] := by
    simp [Json.fields?, Json.find?, other.symm]
  simp only [Instruction.decodeOperand, fields, decode_encode_opcode, reads]
  rfl

theorem decode_encode_instruction {i : Instruction} (finite : i.isFinite = true) :
    decode (encode i) = some i := by
  cases i with
  | simple op => exact congrArg (Option.map Instruction.simple) (decode_encode_opcode op)
  | push op n =>
    exact congrArg (Option.map fun operation => Instruction.push operation.1 operation.2)
      (decodeOperand_encode "operand" op (by decide) (decode_encode_int32 n))
  | access op n =>
    exact congrArg (Option.map fun operation => Instruction.access operation.1 operation.2)
      (decodeOperand_encode "var" op (by decide) (decode_encode_uint64 n))
  | field op member =>
    exact congrArg (Option.map fun operation => Instruction.field operation.1 operation.2)
      (decodeOperand_encode "field" op (by decide) (decode_encode_memberRef member))
  | call op member =>
    exact congrArg (Option.map fun operation => Instruction.call operation.1 operation.2)
      (decodeOperand_encode "call" op (by decide) (decode_encode_memberRef member))
  | constant value =>
    exact congrArg (Option.map Instruction.constant) (decode_encode_constant finite)
  | jump op n =>
    exact congrArg (Option.map fun operation => Instruction.jump operation.1 operation.2)
      (decodeOperand_encode "target" op (by decide) (decode_encode_uint32 n))
  | type op name =>
    exact congrArg (Option.map fun operation => Instruction.type operation.1 operation.2)
      (decodeOperand_encode "desc" op (by decide) (decode_encode_string name))
  | label id => exact congrArg (Option.map Instruction.label) (decode_encode_uint32 id)
  | line number start =>
    change ((decode (encode number)).bind fun number =>
      (decode (encode start)).bind fun start => some (Instruction.line number start)) = _
    rw [decode_encode_uint32, decode_encode_uint32]
    rfl
  | frame => rfl

theorem decode_encode_method {method : Method} (finite : method.isFinite = true) :
    decode (encode method) = some method := by
  have body : decode (encode method.body) = some method.body :=
    decode_encode_array fun i member =>
      decode_encode_instruction (Array.all_eq_true_iff_forall_mem.mp finite i member)
  change ((decode (encode method.location)).bind fun location =>
    (decode (encode method.body)).bind fun body => some (Method.mk location body)) = _
  rw [body]
  rfl

theorem decode_encode_unit {unit : CompiledUnit} (finite : unit.isFinite = true) :
    decode (encode unit) = some unit := by
  have methods : decode (encode unit.methods) = some unit.methods :=
    decode_encode_list fun method member =>
      decode_encode_method (List.all_eq_true.mp finite method member)
  change ((decode (encode unit.name)).bind fun name =>
    (decode (encode unit.methods)).bind fun methods => some (CompiledUnit.mk name methods)) = _
  rw [methods]
  rfl

end Bytecode

section Configuration

theorem decodeOptional_encode {α : Type} [JsonForm α] {value : Option α}
    (reads : ∀ x ∈ value, decode (encode x) = some x ∧ encode x ≠ .null) :
    Json.decodeOptional (value.map encode) = some value := by
  cases value with
  | none => rfl
  | some x =>
    obtain ⟨reads, present⟩ := reads x rfl
    rw [Option.map_some, Json.decodeOptional, reads, Option.map_some]
    exact present

theorem decode_encode_mutation (m : Mutation) : decode (encode m) = some m := by
  obtain ⟨mutator, index, location, description, line⟩ := m
  have descriptions : Json.decodeOptional (description.map encode) = some description :=
    decodeOptional_encode fun text _ => ⟨decode_encode_string text, Json.noConfusion⟩
  have lines : Json.decodeOptional (line.map encode) = some line :=
    decodeOptional_encode fun n _ => ⟨decode_encode_uint32 n, Json.noConfusion⟩
  have fields : decode (encode (Mutation.mk mutator index location description line)) =
      (decode (encode index)).bind fun index =>
        (Json.decodeOptional (description.map encode)).bind fun description =>
          (Json.decodeOptional (line.map encode)).bind fun line =>
            some (Mutation.mk mutator index location description line) := by
    cases description <;> cases line <;> rfl
  rw [fields, decode_encode_uint64, descriptions, lines]
  rfl

theorem decode_encode_mutatorSet (set : MutatorSet) : decode (encode set) = some set := by
  have ids : set.ids.map (·, ()) = set.members.entries := by
    rw [MutatorSet.ids, SortedMap.keys, List.map_map]
    exact List.map_id' _
  have reads := decode_encode_list fun id (_ : id ∈ set.ids) => decode_encode_string id
  refine (congrArg (Option.map MutatorSet.ofList) reads).trans ?_
  rw [Option.map_some, MutatorSet.ofList, ids, SortedMap.ofList_entries]

theorem decode_encode_mutatorIds (ids : MutatorIds) : decode (encode ids) = some ids := rfl

theorem decode_encode_feature (feature : Feature) : decode (encode feature) = some feature := rfl

theorem decode_encode_status (status : ToggleStatus) : decode (encode status) = some status := by
  cases status <;> rfl

theorem decode_encode_parameters (parameters : Parameters) :
    decode (encode parameters) = some parameters := by
  have entries : (parameters.entries.map fun entry => (entry.1, encode entry.2)).mapM
      (fun entry => (decode entry.2).bind fun values : List String => some (entry.1, values)) =
        some parameters.entries := by
    induction parameters.entries with
    | nil => rfl
    | cons entry entries ih =>
      obtain ⟨name, values⟩ := entry
      have reads : decode (encode values) = some values :=
        decode_encode_list fun text _ => decode_encode_string text
      rw [List.map_cons, List.mapM_cons, ih]
      simp only [reads]
      rfl
  refine (congrArg (Option.bind · fun entries => some (SortedMap.ofList entries)) entries).trans ?_
  rw [Option.bind_some, SortedMap.ofList_entries]

theorem decode_encode_setting (setting : FeatureSetting) :
    decode (encode setting) = some setting := by
  have fields : decode (encode setting) = (decode (encode setting.status)).bind fun status =>
      (decode (encode setting.parameters)).bind fun parameters =>
        some (FeatureSetting.mk setting.feature status parameters) := rfl
  rw [fields, decode_encode_status, decode_encode_parameters]
  rfl

end Configuration

end MutantSieve
