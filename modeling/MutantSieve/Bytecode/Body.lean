import MutantSieve.Bytecode.Instruction

namespace MutantSieve

/-- What tells one token from all others: its position in the body at hand, or a serial number for
a token that is in no such position. -/
inductive TokenId where
  | placed (position : Nat)
  | detached (serial : Nat)
deriving DecidableEq

/-- An instruction together with its identity. -/
structure Token where
  id : TokenId
  instruction : Instruction
deriving DecidableEq

/-- The instructions of one method, in order. -/
abbrev Body := Array Instruction

namespace Body

/-- The instructions as tokens. -/
def tokens (body : Body) : List Token :=
  body.toList.mapIdx fun position instruction => ⟨.placed position, instruction⟩

/-- The token at an index. -/
def token? (body : Body) (index : Nat) : Option Token :=
  body[index]?.map fun instruction => ⟨.placed index, instruction⟩

/-- The last token before an index that is not a marker. -/
def lastReal (body : Body) : (index : Nat) → Option Token
  | 0 => none
  | index + 1 =>
    match body[index]? with
    | some i => if i.isMarker then body.lastReal index else some ⟨.placed index, i⟩
    | none => body.lastReal index

/-- The nearest token before an index that is not a marker. The index may be the length of the
body but not exceed it. -/
def realBefore (body : Body) (index : Nat) : Option Token :=
  if index ≤ body.size then body.lastReal index else none

theorem tokens_getElem? (body : Body) (index : Nat) : body.tokens[index]? = body.token? index := by
  simp [tokens, token?, List.getElem?_mapIdx]

@[simp] theorem length_tokens (body : Body) : body.tokens.length = body.size := by
  simp [tokens]

/-- The search from the index down finds the last real token among those before it. -/
theorem lastReal_eq (body : Body) (index : Nat) :
    body.lastReal index = (body.tokens.take index).reverse.find? fun t =>
      !t.instruction.isMarker := by
  induction index with
  | zero => rfl
  | succ index ih =>
    rw [lastReal, List.take_add_one, tokens_getElem?, token?, List.reverse_append,
      List.find?_append]
    cases body[index]? with
    | none => simpa using ih
    | some i => cases marker : i.isMarker <;> simp [marker, ih]

end Body

end MutantSieve
