import MutantSieve.Bytecode.Instruction

namespace MutantSieve

/-- A property that an instruction has or lacks whatever stands around it. -/
inductive InstructionTest where
  | any
  | never
  | opcode (opcode : Opcode)
  | opcodeIn (opcodes : List Opcode)
  | opcodeClass (opcodeClass : OpcodeClass)
  | zeroConstant
  | callTo (owner name : String)
  | callNamed (name : String)
  | takesNoArguments
  | getStatic (owner name : String)
  | loadsConstant (constant : Constant)
  | marker
  | label
deriving DecidableEq

/-- Whether an instruction passes a test. -/
def InstructionTest.accepts : InstructionTest → Instruction → Bool
  | any, _ => true
  | never, _ => false
  | opcode op, i => i.opcode? = some op
  | opcodeIn ops, i => i.opcode?.any (· ∈ ops)
  | opcodeClass k, i => i.opcodeClass = k
  | zeroConstant, i => i.isZeroConstant
  | callTo owner name, i => i.call?.any fun m => m.owner = owner && m.name = name
  | callNamed name, i => i.call?.any (·.name = name)
  | takesNoArguments, i => i.call?.any (·.parameterCount = some 0)
  | getStatic owner name, i =>
    i.opcode? = some .getstatic && i.field?.any fun m => m.owner = owner && m.name = name
  | loadsConstant c, i => i.constant?.any c.sameValue
  | marker, i => i.isMarker
  | label, i => i.isLabel

end MutantSieve
