namespace MutantSieve.Descriptor

/-- Letters that are a whole parameter type by themselves. -/
def isPrimitive (c : Char) : Bool :=
  c = 'B' || c = 'C' || c = 'D' || c = 'F' || c = 'I' || c = 'J' || c = 'S' || c = 'Z'

/-- Where a reader of parameter types stands: between two types, behind the brackets of an array
type, or inside a class name. -/
inductive Place where
  | between | element | className
deriving DecidableEq

/-- How many parameter types a text holds from a place on, if it is made of them to its end. -/
def countTypes : Place → List Char → Option Nat
  | .between, [] => some 0
  | _, [] => none
  | .className, c :: rest =>
    if c = ';' then (countTypes .between rest).map (· + 1) else countTypes .className rest
  | _, c :: rest =>
    if c = '[' then countTypes .element rest
    else if c = 'L' then countTypes .className rest
    else if isPrimitive c then (countTypes .between rest).map (· + 1)
    else none

/-- The text between the opening parenthesis at the front and the first closing one. -/
def parameterPart : List Char → Option (List Char)
  | '(' :: rest => if ')' ∈ rest then some (rest.takeWhile (· ≠ ')')) else none
  | _ => none

/-- The number of parameters that a descriptor declares. What follows its first closing
parenthesis does not count. -/
def parameterCount (descriptor : String) : Option Nat :=
  (parameterPart descriptor.toList).bind (countTypes .between)

end MutantSieve.Descriptor
