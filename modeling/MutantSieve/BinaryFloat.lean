namespace MutantSieve

/-- Widths of the two fields that follow the sign bit of an encoding. -/
structure BinaryFormat where
  fractionBits : Nat
  exponentBits : Nat

namespace BinaryFormat

/-- Eight exponent bits and 23 fraction bits. -/
def single : BinaryFormat := ⟨23, 8⟩

/-- Eleven exponent bits and 52 fraction bits. -/
def double : BinaryFormat := ⟨52, 11⟩

/-- The encoding of infinity without its sign; the encodings below it are the finite numbers in
increasing order, those above it are not numbers. -/
def infinity (format : BinaryFormat) : Nat :=
  ((1 <<< format.exponentBits) - 1) <<< format.fractionBits

/-- The power of two that the last place of the smallest numbers counts. -/
def leastPlace (format : BinaryFormat) : Int :=
  2 - (1 <<< (format.exponentBits - 1) : Nat) - (format.fractionBits : Nat)

/-- A finite encoding without its sign as a whole number of some power of two. -/
def scaled (format : BinaryFormat) (magnitude : Nat) : Nat × Int :=
  let hidden := 1 <<< format.fractionBits
  let exponent := magnitude / hidden
  if exponent = 0 then (magnitude, format.leastPlace)
  else (hidden + magnitude % hidden, format.leastPlace + (exponent - 1 : Nat))

/-- How many binary digits a number has. -/
def bitLength (n : Nat) : Nat := if n = 0 then 0 else n.log2 + 1

/-- The nearest whole number to `n / unit`, the even one of two that are equally near. -/
def nearest (n unit : Nat) : Nat :=
  let quotient := n / unit
  let rest := n % unit
  if 2 * rest < unit ∨ 2 * rest = unit ∧ quotient % 2 = 0 then quotient else quotient + 1

/-- The encoding nearest to `n` times two to the power `place`, without a sign. A significand that
rounding carries into the next binade spills into the exponent field, which is the encoding of that
binade. -/
def round (format : BinaryFormat) (n : Nat) (place : Int) : Nat :=
  if n = 0 then 0
  else
    let last := max (place + bitLength n - (format.fractionBits + 1)) format.leastPlace
    let significand :=
      if last ≤ place then n <<< (place - last).toNat else nearest n (1 <<< (last - place).toNat)
    min (significand + (last - format.leastPlace).toNat <<< format.fractionBits) format.infinity

/-- The encoding in one format of the number nearest to one of another, without a sign. -/
def convert (source target : BinaryFormat) (magnitude : Nat) : Nat :=
  if magnitude < source.infinity then
    let number := source.scaled magnitude
    target.round number.1 number.2
  else if magnitude = source.infinity then target.infinity
  else target.infinity + 1 <<< (target.fractionBits - 1)

end BinaryFormat

/-- A single precision number by its encoding. -/
structure Binary32 where
  bits : UInt32
deriving DecidableEq

/-- A double precision number by its encoding. -/
structure Binary64 where
  bits : UInt64
deriving DecidableEq

namespace Binary32

/-- Whether the sign bit is set. -/
def negative (x : Binary32) : Bool := 0x80000000 ≤ x.bits

/-- The encoding without the sign bit. -/
def magnitude (x : Binary32) : Nat := x.bits.toNat % 0x80000000

/-- The number with a sign and an encoding without one. -/
def ofMagnitude (negative : Bool) (magnitude : Nat) : Binary32 :=
  ⟨UInt32.ofNat (magnitude + if negative then 0x80000000 else 0)⟩

/-- Equality of values: the two zeros are equal, and what is not a number equals nothing. -/
def sameValue (x y : Binary32) : Bool :=
  x.magnitude ≤ BinaryFormat.single.infinity && y.magnitude ≤ BinaryFormat.single.infinity &&
    (x.bits == y.bits || (x.magnitude == 0 && y.magnitude == 0))

/-- The nearest single precision number to a whole number. -/
def ofInt (n : Int) : Binary32 :=
  ofMagnitude (n < 0) (BinaryFormat.single.round n.natAbs 0)

end Binary32

namespace Binary64

/-- Whether the sign bit is set. -/
def negative (x : Binary64) : Bool := 0x8000000000000000 ≤ x.bits

/-- The encoding without the sign bit. -/
def magnitude (x : Binary64) : Nat := x.bits.toNat % 0x8000000000000000

/-- The number with a sign and an encoding without one. -/
def ofMagnitude (negative : Bool) (magnitude : Nat) : Binary64 :=
  ⟨UInt64.ofNat (magnitude + if negative then 0x8000000000000000 else 0)⟩

/-- Neither infinite nor the encoding of something that is not a number. -/
def isFinite (x : Binary64) : Bool := x.magnitude < BinaryFormat.double.infinity

/-- Equality of values: the two zeros are equal, and what is not a number equals nothing. -/
def sameValue (x y : Binary64) : Bool :=
  x.magnitude ≤ BinaryFormat.double.infinity && y.magnitude ≤ BinaryFormat.double.infinity &&
    (x.bits == y.bits || (x.magnitude == 0 && y.magnitude == 0))

/-- The nearest double precision number to a whole number. -/
def ofInt (n : Int) : Binary64 :=
  ofMagnitude (n < 0) (BinaryFormat.double.round n.natAbs 0)

/-- The nearest single precision number to one of double precision. -/
def narrow (x : Binary64) : Binary32 :=
  Binary32.ofMagnitude x.negative (BinaryFormat.double.convert .single x.magnitude)

end Binary64

/-- The same number in double precision. -/
def Binary32.widen (x : Binary32) : Binary64 :=
  .ofMagnitude x.negative (BinaryFormat.single.convert .double x.magnitude)

end MutantSieve
