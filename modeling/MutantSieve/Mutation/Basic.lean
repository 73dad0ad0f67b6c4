import MutantSieve.Bytecode.Unit

namespace MutantSieve

/-- One mutant: the mutator that makes it and the instruction that is changed. -/
structure Mutation where
  mutator : String
  index : UInt64
  location : Location
  description : Option String := none
  line : Option UInt32 := none
deriving DecidableEq

/-- The text of a mutation in messages. -/
def Mutation.text (m : Mutation) : String :=
  m.mutator ++ " at " ++ m.location.text ++ "[" ++ toString m.index.toNat ++ "]" ++
    m.line.elim "" fun line => " line " ++ toString line.toNat

end MutantSieve
