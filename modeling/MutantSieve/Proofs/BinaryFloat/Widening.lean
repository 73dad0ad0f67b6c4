import MutantSieve.BinaryFloat
import Mathlib.Algebra.Group.Nat.Defs

namespace MutantSieve

namespace BinaryFormat

variable {format : BinaryFormat} {n unit factor magnitude width k : Nat} {place : Int}

theorem bitLength_eq (lower : 2 ^ k ≤ n) (upper : n < 2 ^ (k + 1)) : bitLength n = k + 1 := by
  have nonzero : n ≠ 0 := by
    have := Nat.two_pow_pos k
    omega
  rw [bitLength, if_neg nonzero, (Nat.log2_eq_iff nonzero).mpr ⟨lower, upper⟩]

theorem bitLength_pos (nonzero : n ≠ 0) : 0 < bitLength n := by
  rw [bitLength, if_neg nonzero]
  omega

theorem bitLength_le (within : n < 2 ^ width) : bitLength n ≤ width := by
  unfold bitLength
  split
  · omega
  · next nonzero => exact (Nat.log2_lt nonzero).mpr within

theorem two_pow_le_of_bitLength (nonzero : n ≠ 0) (length : bitLength n = k + 1) : 2 ^ k ≤ n := by
  rw [bitLength, if_neg nonzero, Nat.add_right_cancel_iff] at length
  exact length ▸ Nat.log2_self_le nonzero

theorem lt_two_pow_of_bitLength (length : bitLength n = k + 1) : n < 2 ^ (k + 1) := by
  unfold bitLength at length
  split at length
  · omega
  · next nonzero => exact length ▸ Nat.lt_log2_self

theorem bitLength_shiftLeft (nonzero : n ≠ 0) : bitLength (n <<< k) = bitLength n + k := by
  have length : bitLength n = n.log2 + 1 := if_neg nonzero
  have lower := Nat.mul_le_mul_right (2 ^ k) (two_pow_le_of_bitLength nonzero length)
  have upper := Nat.mul_lt_mul_of_pos_right (lt_two_pow_of_bitLength length) (Nat.two_pow_pos k)
  rw [← Nat.pow_add] at lower upper
  rw [length, Nat.shiftLeft_eq, Nat.add_right_comm]
  exact bitLength_eq lower (by rwa [Nat.add_right_comm] at upper)

theorem nearest_mul_mul (positive : 0 < factor) :
    nearest (n * factor) (unit * factor) = nearest n unit := by
  have less : 2 * (n % unit * factor) < unit * factor ↔ 2 * (n % unit) < unit := by
    rw [← Nat.mul_assoc, Nat.mul_lt_mul_right positive]
  have same : 2 * (n % unit * factor) = unit * factor ↔ 2 * (n % unit) = unit := by
    rw [← Nat.mul_assoc, Nat.mul_right_cancel_iff positive]
  simp only [nearest, Nat.mul_div_mul_right n unit positive, Nat.mul_mod_mul_right, less, same]

theorem nearest_mul_self (positive : 0 < unit) : nearest (n * unit) unit = n := by
  have whole : nearest n 1 = n := by simp [nearest, Nat.mod_one]
  have scaled : nearest (n * unit) (1 * unit) = nearest n 1 := nearest_mul_mul positive
  rwa [Nat.one_mul, whole] at scaled

/-- A number that is written with more places rounds to the same encoding. -/
theorem round_shiftLeft (format : BinaryFormat) (n k : Nat) (place : Int) :
    format.round (n <<< k) (place - k) = format.round n place := by
  unfold round
  simp only [Nat.shiftLeft_eq_zero_iff]
  split
  · rfl
  · next nonzero =>
    have last : place - k + bitLength (n <<< k) = place + bitLength n := by
      rw [bitLength_shiftLeft nonzero]
      omega
    rw [last]
    -- The last place that is kept is the same; it may stand before, between or behind the last
    -- places of the two ways to write the number.
    generalize max (place + bitLength n - (format.fractionBits + 1)) format.leastPlace = last
    congr 2
    by_cases fine : last ≤ place - k
    · have shift : (place - last).toNat = k + (place - k - last).toNat := by omega
      rw [if_pos fine, if_pos (by omega), ← Nat.shiftLeft_add, shift]
    · rw [if_neg fine]
      simp only [Nat.shiftLeft_eq, Nat.one_mul]
      by_cases exact : last ≤ place
      · have parts : n * 2 ^ k =
            n * 2 ^ (place - last).toNat * 2 ^ (last - (place - k)).toNat := by
          rw [Nat.mul_assoc, ← Nat.pow_add]
          congr 2
          omega
        rw [if_pos exact, parts, nearest_mul_self (Nat.two_pow_pos _)]
      · have shift : (last - (place - k)).toNat = (last - place).toNat + k := by omega
        rw [if_neg exact, shift, Nat.pow_add, nearest_mul_mul (Nat.two_pow_pos k)]

theorem scaled_small (small : magnitude < 2 ^ format.fractionBits) :
    format.scaled magnitude = (magnitude, format.leastPlace) := by
  simp only [scaled, Nat.one_shiftLeft, Nat.div_eq_of_lt small, if_true]

theorem scaled_parts {exponent fraction : Nat} (below : fraction < 2 ^ format.fractionBits) :
    format.scaled ((exponent + 1) * 2 ^ format.fractionBits + fraction) =
      (2 ^ format.fractionBits + fraction, format.leastPlace + exponent) := by
  have positive := Nat.two_pow_pos format.fractionBits
  have quotient : ((exponent + 1) * 2 ^ format.fractionBits + fraction) /
      2 ^ format.fractionBits = exponent + 1 := by
    rw [Nat.mul_comm, Nat.mul_add_div positive, Nat.div_eq_of_lt below, Nat.add_zero]
  have rest : ((exponent + 1) * 2 ^ format.fractionBits + fraction) %
      2 ^ format.fractionBits = fraction := by
    rw [Nat.mul_comm, Nat.mul_add_mod, Nat.mod_eq_of_lt below]
  simp only [scaled, Nat.one_shiftLeft, quotient, rest, Nat.add_one_ne_zero, if_false,
    Nat.add_sub_cancel]

/-- An encoding is that of a number with fewer digits than the format has, or its two fields. -/
theorem exists_parts (format : BinaryFormat) (magnitude : Nat) :
    magnitude < 2 ^ format.fractionBits ∨ ∃ exponent fraction,
      fraction < 2 ^ format.fractionBits ∧
        magnitude = (exponent + 1) * 2 ^ format.fractionBits + fraction := by
  have positive := Nat.two_pow_pos format.fractionBits
  by_cases small : magnitude < 2 ^ format.fractionBits
  · exact .inl small
  · refine .inr ⟨magnitude / 2 ^ format.fractionBits - 1, magnitude % 2 ^ format.fractionBits,
      Nat.mod_lt _ positive, ?_⟩
    have least := Nat.div_pos (Nat.le_of_not_lt small) positive
    rw [Nat.sub_add_cancel least, Nat.div_add_mod']

/-- A number that the format has no digits to drop from, at a place it can count. -/
theorem round_of_fits (nonzero : n ≠ 0) {last : Int}
    (counted : max (place + bitLength n - (format.fractionBits + 1)) format.leastPlace = last)
    (fits : last ≤ place) : format.round n place =
      min (n * 2 ^ (place - last).toNat +
        (last - format.leastPlace).toNat * 2 ^ format.fractionBits) format.infinity := by
  simp only [round, if_neg nonzero, counted, if_pos fits, Nat.shiftLeft_eq]

/-- A finite encoding is the one nearest to its number. -/
theorem round_scaled (finite : magnitude < format.infinity) :
    format.round (format.scaled magnitude).1 (format.scaled magnitude).2 = magnitude := by
  rcases format.exists_parts magnitude with small | ⟨exponent, fraction, below, rfl⟩
  · rw [scaled_small small]
    by_cases zero : magnitude = 0
    · rw [zero, round, if_pos rfl]
    · have length := bitLength_le small
      have counted : max (format.leastPlace + bitLength magnitude - (format.fractionBits + 1))
          format.leastPlace = format.leastPlace := by omega
      rw [round_of_fits zero counted (Int.le_refl _)]
      simp only [Int.sub_self, Int.toNat_zero, Nat.pow_zero, Nat.mul_one, Nat.zero_mul, Nat.add_zero]
      omega
  · rw [scaled_parts below]
    have length : bitLength (2 ^ format.fractionBits + fraction) = format.fractionBits + 1 :=
      bitLength_eq (Nat.le_add_right _ _) (by rw [Nat.pow_succ]; omega)
    have counted : max (format.leastPlace + exponent +
        bitLength (2 ^ format.fractionBits + fraction) - (format.fractionBits + 1))
        format.leastPlace = format.leastPlace + exponent := by omega
    have nonzero : 2 ^ format.fractionBits + fraction ≠ 0 := by
      have := Nat.two_pow_pos format.fractionBits
      omega
    have shift : (format.leastPlace + exponent - format.leastPlace).toNat = exponent := by omega
    rw [round_of_fits nonzero counted (Int.le_refl _), shift]
    simp only [Int.sub_self, Int.toNat_zero, Nat.pow_zero, Nat.mul_one]
    rw [Nat.add_mul, Nat.one_mul] at finite ⊢
    omega

/-- A number whose digits all have a place in the format keeps them. -/
theorem scaled_round (nonzero : n ≠ 0) (digits : bitLength n + k = format.fractionBits + 1)
    {exponent : Nat} (counted : place - k = format.leastPlace + exponent)
    (high : (exponent + 2) * 2 ^ format.fractionBits ≤ format.infinity) :
    format.round n place < format.infinity ∧
      format.scaled (format.round n place) = (n <<< k, place - k) := by
  have length : bitLength (n * 2 ^ k) = format.fractionBits + 1 := by
    rw [← Nat.shiftLeft_eq, bitLength_shiftLeft nonzero, digits]
  have lower : 2 ^ format.fractionBits ≤ n * 2 ^ k :=
    two_pow_le_of_bitLength (Nat.mul_ne_zero nonzero (Nat.ne_of_gt (Nat.two_pow_pos k))) length
  have upper : n * 2 ^ k < 2 ^ format.fractionBits * 2 := lt_two_pow_of_bitLength length
  obtain ⟨fraction, parts⟩ := Nat.exists_eq_add_of_le lower
  have last : max (place + bitLength n - (format.fractionBits + 1)) format.leastPlace =
      place - k := by omega
  have shift : (place - (place - k)).toNat = k := by omega
  have field : (place - k - format.leastPlace).toNat = exponent := by omega
  rw [Nat.add_mul] at high
  have rounded : format.round n place = (exponent + 1) * 2 ^ format.fractionBits + fraction := by
    rw [round_of_fits nonzero last (by omega), shift, field, parts, Nat.add_mul, Nat.one_mul]
    omega
  rw [rounded]
  constructor
  · rw [Nat.add_mul, Nat.one_mul]
    omega
  · rw [scaled_parts (by omega), Nat.shiftLeft_eq, parts, counted]

/-- The number of a finite single precision encoding has at most 24 digits, the last of them at one
of 254 places. -/
theorem scaled_single (finite : magnitude < single.infinity) :
    (single.scaled magnitude).1 < 2 ^ 24 ∧ -149 ≤ (single.scaled magnitude).2 ∧
      (single.scaled magnitude).2 ≤ 104 := by
  have least : single.leastPlace = -149 := rfl
  have infinity : single.infinity = 255 * 2 ^ 23 := rfl
  have fractionBits : single.fractionBits = 23 := rfl
  rcases single.exists_parts magnitude with small | ⟨exponent, fraction, below, rfl⟩
  · rw [scaled_small small, least]
    rw [fractionBits] at small
    omega
  · rw [scaled_parts below, least]
    rw [fractionBits] at below finite ⊢
    rw [infinity] at finite
    omega

/-- A finite single precision number is a double precision number. -/
theorem convert_convert (finite : magnitude < single.infinity) :
    single.convert double magnitude < double.infinity ∧
      double.convert single (single.convert double magnitude) = magnitude := by
  have least : double.leastPlace = -1074 := rfl
  have infinity : double.infinity = 2047 * 2 ^ 52 := rfl
  have fractionBits : double.fractionBits = 52 := rfl
  have again := round_scaled finite
  obtain ⟨digits, low, high⟩ := scaled_single finite
  simp only [convert, if_pos finite]
  generalize single.scaled magnitude = number at again digits low high ⊢
  obtain ⟨n, place⟩ := number
  by_cases zero : n = 0
  · subst zero
    have nothing (format : BinaryFormat) (place : Int) : format.round 0 place = 0 := if_pos rfl
    have positive : 0 < double.infinity := by decide
    rw [nothing] at again
    subst again
    rw [nothing, if_pos positive, scaled_small (Nat.two_pow_pos _), nothing]
    exact ⟨positive, rfl⟩
  · have length : bitLength n ≤ 24 := bitLength_le digits
    have positive := bitLength_pos zero
    obtain ⟨k, spare⟩ : ∃ k, bitLength n + k = 53 := ⟨53 - bitLength n, by omega⟩
    obtain ⟨exponent, counted⟩ : ∃ exponent : Nat, place - k = double.leastPlace + exponent :=
      ⟨(place - k + 1074).toNat, by omega⟩
    have room : (exponent + 2) * 2 ^ double.fractionBits ≤ double.infinity := by
      rw [infinity, fractionBits]
      exact Nat.mul_le_mul_right _ (by omega)
    obtain ⟨finite', number⟩ := scaled_round zero spare counted room
    rw [if_pos finite', number]
    exact ⟨finite', (round_shiftLeft single n k place).trans again⟩

end BinaryFormat

namespace Binary32

/-- Neither infinite nor the encoding of something that is not a number. -/
def isFinite (x : Binary32) : Bool := x.magnitude < BinaryFormat.single.infinity

theorem ofMagnitude_magnitude (x : Binary32) : ofMagnitude x.negative x.magnitude = x := by
  obtain ⟨bits⟩ := x
  have within := bits.toNat_lt
  have word : bits.toNat % 0x80000000 + (if 0x80000000 ≤ bits then 0x80000000 else 0) =
      bits.toNat := by
    split
    · next high =>
      have : 0x80000000 ≤ bits.toNat := UInt32.le_iff_toNat_le.mp high
      omega
    · next low =>
      have : ¬ 0x80000000 ≤ bits.toNat := fun high => low (UInt32.le_iff_toNat_le.mpr high)
      omega
  simp only [ofMagnitude, negative, magnitude, decide_eq_true_eq, word, UInt32.ofNat_toNat]

end Binary32

namespace Binary64

variable {negative : Bool} {magnitude : Nat}

theorem toNat_bits_ofMagnitude (within : magnitude < 0x8000000000000000) :
    (ofMagnitude negative magnitude).bits.toNat =
      magnitude + if negative then 0x8000000000000000 else 0 := by
  refine UInt64.toNat_ofNat_of_lt' ?_
  have size : UInt64.size = 18446744073709551616 := rfl
  split <;> omega

theorem magnitude_ofMagnitude (within : magnitude < 0x8000000000000000) :
    (ofMagnitude negative magnitude).magnitude = magnitude := by
  rw [Binary64.magnitude, toNat_bits_ofMagnitude within]
  split <;> omega

theorem negative_ofMagnitude (within : magnitude < 0x8000000000000000) :
    (ofMagnitude negative magnitude).negative = negative := by
  have bits : (ofMagnitude negative magnitude).bits.toNat =
      magnitude + if negative then 0x8000000000000000 else 0 := toNat_bits_ofMagnitude within
  have sign : 0x8000000000000000 ≤ (ofMagnitude negative magnitude).bits ↔ negative = true := by
    rw [UInt64.le_iff_toNat_le, bits]
    cases negative with
    | false => simp; omega
    | true => simp
  exact Bool.eq_iff_iff.mpr (decide_eq_true_iff.trans sign)

end Binary64

namespace Binary32

variable {x : Binary32}

theorem widen_spec (finite : x.isFinite = true) :
    x.widen.negative = x.negative ∧
      x.widen.magnitude = BinaryFormat.single.convert .double x.magnitude ∧
      x.widen.magnitude < BinaryFormat.double.infinity := by
  have bound := (BinaryFormat.convert_convert (of_decide_eq_true finite)).1
  have infinity : BinaryFormat.double.infinity = 2047 * 2 ^ 52 := rfl
  have within : BinaryFormat.single.convert .double x.magnitude < 0x8000000000000000 := by omega
  rw [widen, Binary64.negative_ofMagnitude within, Binary64.magnitude_ofMagnitude within]
  exact ⟨rfl, rfl, bound⟩

theorem isFinite_widen (finite : x.isFinite = true) : x.widen.isFinite = true :=
  decide_eq_true (widen_spec finite).2.2

/-- A finite single precision number comes back from double precision bit by bit. -/
theorem narrow_widen (finite : x.isFinite = true) : x.widen.narrow = x := by
  obtain ⟨sign, magnitude, -⟩ := widen_spec finite
  rw [Binary64.narrow, sign, magnitude,
    (BinaryFormat.convert_convert (of_decide_eq_true finite)).2, ofMagnitude_magnitude]

end Binary32

end MutantSieve
