import MutantSieve.Bytecode.Body

namespace MutantSieve

/-- Where a method is: its class, name and descriptor. -/
structure Location where
  className : String
  methodName : String
  descriptor : String
deriving DecidableEq

/-- The text of a location in messages. -/
def Location.text (location : Location) : String :=
  location.className ++ "::" ++ location.methodName ++ location.descriptor

/-- A method and its body. -/
structure Method where
  location : Location
  body : Body
deriving DecidableEq

/-- The nearest real token before the instruction at an index, which has to exist. -/
def Method.realBefore (method : Method) (index : Nat) : Option Token :=
  if index < method.body.size then method.body.realBefore index else none

/-- A class and the methods it declares. -/
structure CompiledUnit where
  name : String
  methods : List Method
deriving DecidableEq

/-- The first method declared at a location. -/
def CompiledUnit.methodAt? (unit : CompiledUnit) (location : Location) : Option Method :=
  unit.methods.find? (·.location = location)

/-- The methods of a unit by location, one for each. -/
structure MethodTable where
  methods : List (Location × Method)

namespace MethodTable

/-- The method at a location. -/
def get? (table : MethodTable) (location : Location) : Option Method :=
  (table.methods.find? (·.1 = location)).map (·.2)

/-- Adds a method unless its location is taken. -/
def add (table : MethodTable) (method : Method) : MethodTable :=
  if (table.get? method.location).isSome then table
  else ⟨(method.location, method) :: table.methods⟩

/-- The table of a unit. -/
def ofUnit (unit : CompiledUnit) : MethodTable :=
  unit.methods.foldl add ⟨[]⟩

theorem get?_add (table : MethodTable) (method : Method) (location : Location) :
    (table.add method).get? location =
      (table.get? location).or (if method.location = location then some method else none) := by
  rw [add]
  split
  · next taken =>
    split
    · next same =>
      obtain ⟨old, found⟩ := Option.isSome_iff_exists.mp (same ▸ taken)
      rw [found, Option.some_or]
    · exact Option.or_none.symm
  · next free =>
    by_cases same : method.location = location
    · subst same
      rw [Option.not_isSome_iff_eq_none.mp free]
      simp [get?]
    · simp [get?, same]

theorem get?_foldl_add (methods : List Method) (table : MethodTable) (location : Location) :
    (methods.foldl add table).get? location =
      (table.get? location).or (methods.find? (·.location = location)) := by
  induction methods generalizing table with
  | nil => exact Option.or_none.symm
  | cons method methods ih =>
    rw [List.foldl_cons, ih, get?_add, Option.or_assoc, List.find?_cons]
    by_cases same : method.location = location <;> simp [same]

/-- The table of a unit finds what a search through its methods finds. -/
theorem get?_ofUnit (unit : CompiledUnit) (location : Location) :
    (ofUnit unit).get? location = unit.methodAt? location :=
  get?_foldl_add unit.methods ⟨[]⟩ location

end MethodTable

end MutantSieve
