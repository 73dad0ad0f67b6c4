import MutantSieve.Json.Bytecode
import MutantSieve.Mutation.Basic
import MutantSieve.Mutation.MutatorSet

namespace MutantSieve

open JsonForm

instance : JsonForm Mutation where
  encode m :=
    .object (
      [("mutator", encode m.mutator), ("instruction_index", encode m.index),
        ("location", encode m.location)] ++
      m.description.toList.map (("description", encode ·)) ++
      m.line.toList.map (("line", encode ·)))
  decode j :=
    match j.record? ["mutator", "instruction_index", "location", "description", "line"] with
    | some [some mutator, some index, some location, description, line] =>
      return ⟨← decode mutator, ← decode index, ← decode location,
        ← Json.decodeOptional description, ← Json.decodeOptional line⟩
    | _ => none

instance : JsonForm MutatorSet where
  encode set := encode set.ids
  decode j := (decode j).map MutatorSet.ofList

instance : JsonForm MutatorIds where
  encode ids :=
    .object [("primitive_returns", encode ids.primitiveReturns),
      ("true_returns", encode ids.trueReturns), ("false_returns", encode ids.falseReturns),
      ("empty_returns", encode ids.emptyReturns), ("null_returns", encode ids.nullReturns)]
  decode j :=
    let names :=
      ["primitive_returns", "true_returns", "false_returns", "empty_returns", "null_returns"]
    let defaults : MutatorIds := {}
    match j.record? names with
    | some [primitiveReturns, trueReturns, falseReturns, emptyReturns, nullReturns] =>
      return ⟨← Json.decodeOr defaults.primitiveReturns primitiveReturns,
        ← Json.decodeOr defaults.trueReturns trueReturns,
        ← Json.decodeOr defaults.falseReturns falseReturns,
        ← Json.decodeOr defaults.emptyReturns emptyReturns,
        ← Json.decodeOr defaults.nullReturns nullReturns⟩
    | _ => none

end MutantSieve
