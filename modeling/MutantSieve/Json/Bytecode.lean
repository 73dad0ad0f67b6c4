import MutantSieve.Bytecode.Unit
import MutantSieve.Json.Value

namespace MutantSieve

open JsonForm

instance : JsonForm Opcode where
  encode op := .string op.name
  decode := Json.decodeName Opcode.all Opcode.name

instance : JsonForm OpcodeClass where
  encode k := .string k.name
  decode := Json.decodeName OpcodeClass.all OpcodeClass.name

/-- The written form of a constant. -/
def Constant.encode : Constant → Json
  | int n => .alternative "Int" (JsonForm.encode n)
  | long n => .alternative "Long" (JsonForm.encode n)
  | float x => .alternative "Float" (.ofBinary64 x.widen)
  | double x => .alternative "Double" (.ofBinary64 x)
  | string text => .alternative "String" (JsonForm.encode text)
  | type name => .alternative "Type" (JsonForm.encode name)

/-- Reads a constant. -/
def Constant.decode (j : Json) : Option Constant :=
  match j.alternative? with
  | some ("Int", some value) => (JsonForm.decode value).map int
  | some ("Long", some value) => (JsonForm.decode value).map long
  | some ("Float", some value) => value.binary32?.map float
  | some ("Double", some value) => value.binary64?.map double
  | some ("String", some value) => (JsonForm.decode value).map string
  | some ("Type", some value) => (JsonForm.decode value).map type
  | _ => none

instance : JsonForm Constant := ⟨Constant.encode, Constant.decode⟩

instance : JsonForm MemberRef where
  encode m :=
    .object [("owner", encode m.owner), ("name", encode m.name), ("desc", encode m.descriptor)]
  decode j :=
    match j.record? ["owner", "name", "desc"] with
    | some [some owner, some name, some descriptor] =>
      return ⟨← decode owner, ← decode name, ← decode descriptor⟩
    | _ => none

namespace Instruction

/-- The written form of an instruction with an operation and one operand. -/
def encodeOperand {α : Type} [JsonForm α] (kind operandName : String) (opcode : Opcode)
    (operand : α) : Json :=
  .alternative kind
    (.object [("opcode", JsonForm.encode opcode), (operandName, JsonForm.encode operand)])

/-- Reads an operation and its operand. -/
def decodeOperand {α : Type} [JsonForm α] (operandName : String) (j : Json) :
    Option (Opcode × α) :=
  match j.fields? ["opcode", operandName] with
  | some [some opcode, some operand] =>
    return (← JsonForm.decode opcode, ← JsonForm.decode operand)
  | _ => none

/-- The written form of an instruction. -/
def encode : Instruction → Json
  | simple op => .alternative "Insn" (JsonForm.encode op)
  | push op operand => encodeOperand "IntPush" "operand" op operand
  | access op index => encodeOperand "Var" "var" op index
  | field op member => encodeOperand "Field" "field" op member
  | call op member => encodeOperand "Method" "call" op member
  | constant value => .alternative "Ldc" (JsonForm.encode value)
  | jump op target => encodeOperand "Jump" "target" op target
  | type op name => encodeOperand "Type" "desc" op name
  | label id => .alternative "Label" (JsonForm.encode id)
  | line number start =>
    .alternative "LineNumber"
      (.object [("line", JsonForm.encode number), ("start", JsonForm.encode start)])
  | frame => .string "Frame"

/-- Reads an instruction. -/
def decode (j : Json) : Option Instruction :=
  match j.alternative? with
  | some ("Insn", some value) => (JsonForm.decode value).map simple
  | some ("IntPush", some value) => (decodeOperand "operand" value).map fun (op, n) => push op n
  | some ("Var", some value) => (decodeOperand "var" value).map fun (op, n) => access op n
  | some ("Field", some value) => (decodeOperand "field" value).map fun (op, m) => field op m
  | some ("Method", some value) => (decodeOperand "call" value).map fun (op, m) => call op m
  | some ("Ldc", some value) => (JsonForm.decode value).map constant
  | some ("Jump", some value) => (decodeOperand "target" value).map fun (op, n) => jump op n
  | some ("Type", some value) => (decodeOperand "desc" value).map fun (op, name) => type op name
  | some ("Label", some value) => (JsonForm.decode value).map label
  | some ("LineNumber", some value) =>
    match value.fields? ["line", "start"] with
    | some [some number, some start] =>
      return line (← JsonForm.decode number) (← JsonForm.decode start)
    | _ => none
  | some ("Frame", none) | some ("Frame", some .null) => some frame
  | _ => none

end Instruction

instance : JsonForm Instruction := ⟨Instruction.encode, Instruction.decode⟩

instance : JsonForm Location where
  encode l :=
    .object [("class_name", encode l.className), ("method_name", encode l.methodName),
      ("method_desc", encode l.descriptor)]
  decode j :=
    match j.record? ["class_name", "method_name", "method_desc"] with
    | some [some className, some methodName, some descriptor] =>
      return ⟨← decode className, ← decode methodName, ← decode descriptor⟩
    | _ => none

instance : JsonForm Method where
  encode m := .object [("location", encode m.location), ("instructions", encode m.body)]
  decode j :=
    match j.record? ["location", "instructions"] with
    | some [some location, some body] => return ⟨← decode location, ← decode body⟩
    | _ => none

instance : JsonForm CompiledUnit where
  encode u := .object [("name", encode u.name), ("methods", encode u.methods)]
  decode j :=
    match j.record? ["name", "methods"] with
    | some [some name, some methods] => return ⟨← decode name, ← decode methods⟩
    | _ => none

end MutantSieve
