namespace MutantSieve

/-- An operation, by its mnemonic. -/
inductive Opcode where
  | nop | aconstNull | iconstM1 | iconst0 | iconst1 | iconst2 | iconst3 | iconst4 | iconst5
  | lconst0 | lconst1 | fconst0 | fconst1 | fconst2 | dconst0 | dconst1 | bipush | sipush | ldc
  | iload | lload | fload | dload | aload | istore | lstore | fstore | dstore | astore | pop | dup
  | iadd | isub | imul | idiv | ladd | lsub | fadd | dadd | goto | ifeq | ifne | ifIcmpeq
  | ifIcmpne | ireturn | lreturn | freturn | dreturn | areturn | voidReturn | getstatic | putstatic
  | getfield | putfield | invokevirtual | invokespecial | invokestatic | invokeinterface
  | invokedynamic | new | checkcast | athrow
deriving DecidableEq

/-- What kind of work an operation does. -/
inductive OpcodeClass where
  | pushConstant | loadLocal | storeLocal | staticFieldRead | invokeMethod | loadConstantObject
  | methodReturn | marker | other
deriving DecidableEq

namespace OpcodeClass

/-- Every class. -/
def all : List OpcodeClass :=
  [pushConstant, loadLocal, storeLocal, staticFieldRead, invokeMethod, loadConstantObject,
    methodReturn, marker, other]

/-- The name a class is written under. -/
def name : OpcodeClass → String
  | pushConstant => "PushConstant"
  | loadLocal => "LoadLocal"
  | storeLocal => "StoreLocal"
  | staticFieldRead => "StaticFieldRead"
  | invokeMethod => "InvokeMethod"
  | loadConstantObject => "LoadConstantObject"
  | methodReturn => "Return"
  | marker => "Marker"
  | other => "Other"

end OpcodeClass

namespace Opcode

/-- Every operation. -/
def all : List Opcode :=
  [nop, aconstNull, iconstM1, iconst0, iconst1, iconst2, iconst3, iconst4, iconst5, lconst0,
    lconst1, fconst0, fconst1, fconst2, dconst0, dconst1, bipush, sipush, ldc, iload, lload, fload,
    dload, aload, istore, lstore, fstore, dstore, astore, pop, dup, iadd, isub, imul, idiv, ladd,
    lsub, fadd, dadd, goto, ifeq, ifne, ifIcmpeq, ifIcmpne, ireturn, lreturn, freturn, dreturn,
    areturn, voidReturn, getstatic, putstatic, getfield, putfield, invokevirtual, invokespecial,
    invokestatic, invokeinterface, invokedynamic, new, checkcast, athrow]

/-- The name an operation is written under. -/
def name : Opcode → String
  | nop => "Nop"
  | aconstNull => "AconstNull"
  | iconstM1 => "IconstM1"
  | iconst0 => "Iconst0"
  | iconst1 => "Iconst1"
  | iconst2 => "Iconst2"
  | iconst3 => "Iconst3"
  | iconst4 => "Iconst4"
  | iconst5 => "Iconst5"
  | lconst0 => "Lconst0"
  | lconst1 => "Lconst1"
  | fconst0 => "Fconst0"
  | fconst1 => "Fconst1"
  | fconst2 => "Fconst2"
  | dconst0 => "Dconst0"
  | dconst1 => "Dconst1"
  | bipush => "Bipush"
  | sipush => "Sipush"
  | ldc => "Ldc"
  | iload => "Iload"
  | lload => "Lload"
  | fload => "Fload"
  | dload => "Dload"
  | aload => "Aload"
  | istore => "Istore"
  | lstore => "Lstore"
  | fstore => "Fstore"
  | dstore => "Dstore"
  | astore => "Astore"
  | pop => "Pop"
  | dup => "Dup"
  | iadd => "Iadd"
  | isub => "Isub"
  | imul => "Imul"
  | idiv => "Idiv"
  | ladd => "Ladd"
  | lsub => "Lsub"
  | fadd => "Fadd"
  | dadd => "Dadd"
  | goto => "Goto"
  | ifeq => "Ifeq"
  | ifne => "Ifne"
  | ifIcmpeq => "IfIcmpeq"
  | ifIcmpne => "IfIcmpne"
  | ireturn => "Ireturn"
  | lreturn => "Lreturn"
  | freturn => "Freturn"
  | dreturn => "Dreturn"
  | areturn => "Areturn"
  | voidReturn => "Return"
  | getstatic => "Getstatic"
  | putstatic => "Putstatic"
  | getfield => "Getfield"
  | putfield => "Putfield"
  | invokevirtual => "Invokevirtual"
  | invokespecial => "Invokespecial"
  | invokestatic => "Invokestatic"
  | invokeinterface => "Invokeinterface"
  | invokedynamic => "Invokedynamic"
  | new => "New"
  | checkcast => "Checkcast"
  | athrow => "Athrow"

/-- The class of an operation; none is a marker. -/
def opcodeClass : Opcode → OpcodeClass
  | aconstNull | iconstM1 | iconst0 | iconst1 | iconst2 | iconst3 | iconst4 | iconst5
  | lconst0 | lconst1 | fconst0 | fconst1 | fconst2 | dconst0 | dconst1 | bipush | sipush =>
    .pushConstant
  | ldc => .loadConstantObject
  | iload | lload | fload | dload | aload => .loadLocal
  | istore | lstore | fstore | dstore | astore => .storeLocal
  | getstatic => .staticFieldRead
  | invokevirtual | invokespecial | invokestatic | invokeinterface | invokedynamic =>
    .invokeMethod
  | ireturn | lreturn | freturn | dreturn | areturn | voidReturn => .methodReturn
  | _ => .other

/-- Pushes the zero of a primitive type. -/
def isZeroConstant : Opcode → Bool
  | iconst0 | lconst0 | fconst0 | dconst0 => true
  | _ => false

end Opcode

end MutantSieve
