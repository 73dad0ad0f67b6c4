import MutantSieve.BinaryFloat
import MutantSieve.Bytecode.Descriptor
import MutantSieve.Bytecode.Opcode

namespace MutantSieve

/-- A value that an instruction loads from the constants of its class. -/
inductive Constant where
  | int (value : Int32)
  | long (value : Int64)
  | float (value : Binary32)
  | double (value : Binary64)
  | string (text : String)
  | type (name : String)
deriving DecidableEq

/-- Equality of constants in which numbers compare by value. -/
def Constant.sameValue : Constant → Constant → Bool
  | float x, float y => x.sameValue y
  | double x, double y => x.sameValue y
  | a, b => a = b

/-- A field or method by its owner, name and descriptor. -/
structure MemberRef where
  owner : String
  name : String
  descriptor : String
deriving DecidableEq

/-- The number of parameters of a method. -/
def MemberRef.parameterCount (member : MemberRef) : Option Nat :=
  Descriptor.parameterCount member.descriptor

/-- One entry of a method body. Any operation may stand with any operands. -/
inductive Instruction where
  | simple (opcode : Opcode)
  | push (opcode : Opcode) (operand : Int32)
  | access (opcode : Opcode) (index : UInt64)
  | field (opcode : Opcode) (member : MemberRef)
  | call (opcode : Opcode) (member : MemberRef)
  | constant (value : Constant)
  | jump (opcode : Opcode) (target : UInt32)
  | type (opcode : Opcode) (name : String)
  | label (id : UInt32)
  | line (number : UInt32) (start : UInt32)
  | frame
deriving DecidableEq

namespace Instruction

/-- The operation, which markers lack. -/
def opcode? : Instruction → Option Opcode
  | simple op | push op _ | access op _ | field op _ | call op _ | jump op _ | type op _ => some op
  | constant _ => some .ldc
  | label _ | line _ _ | frame => none

/-- Labels, line numbers and frames are not executed. -/
def isMarker (i : Instruction) : Bool := i.opcode?.isNone

/-- The class of the operation. -/
def opcodeClass (i : Instruction) : OpcodeClass := i.opcode?.elim .marker Opcode.opcodeClass

/-- Whether the operation pushes the zero of a primitive type. -/
def isZeroConstant (i : Instruction) : Bool := i.opcode?.any Opcode.isZeroConstant

/-- A jump target. -/
def isLabel : Instruction → Bool
  | label _ => true
  | _ => false

/-- The local variable that a load or store names. -/
def localIndex? : Instruction → Option UInt64
  | access _ index => some index
  | _ => none

/-- The method that an invocation calls. -/
def call? : Instruction → Option MemberRef
  | call _ member => some member
  | _ => none

/-- The field that an access names. -/
def field? : Instruction → Option MemberRef
  | field _ member => some member
  | _ => none

/-- The constant that is loaded. -/
def constant? : Instruction → Option Constant
  | constant value => some value
  | _ => none

/-- Equality of instructions in which numbers compare by value. -/
def sameValue : Instruction → Instruction → Bool
  | constant a, constant b => a.sameValue b
  | a, b => a = b

/-- The load of a local variable, for the operations that load one. -/
def load? (opcode : Opcode) (index : UInt64) : Option Instruction :=
  if opcode.opcodeClass = .loadLocal then some (access opcode index) else none

/-- The store to a local variable, for the operations that store one. -/
def store? (opcode : Opcode) (index : UInt64) : Option Instruction :=
  if opcode.opcodeClass = .storeLocal then some (access opcode index) else none

/-- The invocation of a method. -/
def invoke (opcode : Opcode) (owner name descriptor : String) : Instruction :=
  call opcode ⟨owner, name, descriptor⟩

/-- The invocation of a static method. -/
def invokeStatic (owner name descriptor : String) : Instruction :=
  invoke .invokestatic owner name descriptor

/-- The read of a static field. -/
def getStatic (owner name descriptor : String) : Instruction :=
  field .getstatic ⟨owner, name, descriptor⟩

end Instruction

end MutantSieve
