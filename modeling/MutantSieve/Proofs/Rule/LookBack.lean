import MutantSieve.Proofs.Rule.Anchored
import Mathlib.Data.List.Basic

namespace MutantSieve

namespace Body

variable {body : Body} {index position start : Nat} {i : Instruction} {token : Token}

/-- Of the instructions before an index, the one at `position` is the last that is executed. -/
structure LastBefore (body : Body) (index position : Nat) (i : Instruction) : Prop where
  before : position < index
  here : body[position]? = some i
  real : i.isMarker = false
  passed : ∀ k, position < k → k < index → ∀ j, body[k]? = some j → j.isMarker = true

/-- The last instruction executed before an index, wherever it stands. -/
def PrecededBy (body : Body) (index : Nat) (i : Instruction) : Prop :=
  ∃ position, body.LastBefore index position i

/-- The tokens from an index to another that are not markers. -/
def executedBetween (body : Body) (start index : Nat) : List Token :=
  ((body.tokens.take index).drop start).filter fun token => !token.instruction.isMarker

theorem mem_executedBetween : token ∈ body.executedBetween start index ↔
    ∃ k i, start ≤ k ∧ k < index ∧ body[k]? = some i ∧ i.isMarker = false ∧
      token = ⟨.placed k, i⟩ := by
  rw [executedBetween, List.mem_filter, List.mem_iff_getElem?, Bool.not_eq_true']
  constructor
  · rintro ⟨⟨k, found⟩, real⟩
    rw [List.getElem?_drop, List.getElem?_take] at found
    split at found
    · next within =>
      rw [tokens_getElem?, token?] at found
      obtain ⟨i, here, rfl⟩ := Option.map_eq_some_iff.mp found
      exact ⟨start + k, i, Nat.le_add_right _ _, within, here, real, rfl⟩
    · cases found
  · rintro ⟨k, i, from_, within, here, real, rfl⟩
    refine ⟨⟨k - start, ?_⟩, real⟩
    rw [List.getElem?_drop, Nat.add_sub_cancel' from_, List.getElem?_take_of_lt within,
      tokens_getElem?, token?, here, Option.map_some]

theorem mem_executedBefore : token ∈ body.executedBefore index ↔
    ∃ k i, k < index ∧ body[k]? = some i ∧ i.isMarker = false ∧ token = ⟨.placed k, i⟩ := by
  have whole : body.executedBefore index = body.executedBetween 0 index := by
    rw [executedBefore, executedBetween, List.drop_zero]
  rw [whole, mem_executedBetween]
  simp only [Nat.zero_le, true_and]

/-- What is executed before an index, split at an instruction that is executed. -/
theorem executedBefore_split (before : position < index) (here : body[position]? = some i)
    (real : i.isMarker = false) : body.executedBefore index =
      body.executedBefore position ++ ⟨.placed position, i⟩ ::
        body.executedBetween (position + 1) index := by
  have found : (body.tokens.take index)[position]? = some ⟨.placed position, i⟩ := by
    rw [List.getElem?_take_of_lt before, tokens_getElem?, token?, here, Option.map_some]
  obtain ⟨within, same⟩ := List.getElem?_eq_some_iff.mp found
  have parts : body.tokens.take index = body.tokens.take position ++
      ⟨.placed position, i⟩ :: (body.tokens.take index).drop (position + 1) := by
    conv_lhs => rw [← List.take_append_drop position (body.tokens.take index),
      List.drop_eq_getElem_cons within, same, List.take_take, Nat.min_eq_left (Nat.le_of_lt before)]
  rw [executedBefore, parts, List.filter_append, List.filter_cons_of_pos (by simp [real])]
  rfl

/-- Where a token divides what is executed before an index, it does so by its position. -/
theorem split_of_executedBefore {earlier later : List Token}
    (parts : body.executedBefore index = earlier ++ token :: later) :
    ∃ position i, position < index ∧ body[position]? = some i ∧ i.isMarker = false ∧
      token = ⟨.placed position, i⟩ ∧ earlier = body.executedBefore position ∧
        later = body.executedBetween (position + 1) index := by
  have member : token ∈ body.executedBefore index := by
    rw [parts]
    exact List.mem_append_right _ (List.mem_cons_self ..)
  obtain ⟨position, i, before, here, real, rfl⟩ := mem_executedBefore.mp member
  -- Each token carries its position, so this one divides the list in one way only.
  have nodup : (body.executedBefore index).Nodup :=
    (List.Nodup.sublist (List.take_sublist _ _) body.nodup_tokens).filter _
  rw [parts] at nodup
  obtain ⟨-, fromToken, apart⟩ := List.nodup_append'.mp nodup
  have notEarlier : (⟨.placed position, i⟩ : Token) ∉ earlier := fun again =>
    apart again (List.mem_cons_self ..)
  have notLater : (⟨.placed position, i⟩ : Token) ∉ later := (List.nodup_cons.mp fromToken).1
  have split := parts.symm.trans (executedBefore_split before here real)
  obtain ⟨sameEarlier, -, sameLater⟩ :=
    (List.append_cons_inj_of_notMem notEarlier notLater).mp split
  exact ⟨position, i, before, here, real, rfl, sameEarlier, sameLater⟩

theorem executedBetween_eq_nil : body.executedBetween start index = [] ↔
    ∀ k, start ≤ k → k < index → ∀ j, body[k]? = some j → j.isMarker = true := by
  rw [List.eq_nil_iff_forall_not_mem]
  constructor
  · intro nothing k from_ within j here
    by_contra real
    exact nothing _ (mem_executedBetween.mpr
      ⟨k, j, from_, within, here, eq_false_of_ne_true real, rfl⟩)
  · intro markers token member
    obtain ⟨k, i, from_, within, here, real, -⟩ := mem_executedBetween.mp member
    cases real.symm.trans (markers k from_ within i here)

theorem LastBefore.executedBefore_eq (last : body.LastBefore index position i) :
    body.executedBefore index = body.executedBefore position ++ [⟨.placed position, i⟩] := by
  rw [executedBefore_split last.before last.here last.real, executedBetween_eq_nil.mpr last.passed]

theorem getLast?_executedBefore_iff : (body.executedBefore index).getLast? = some token ↔
    ∃ position i, body.LastBefore index position i ∧ token = ⟨.placed position, i⟩ := by
  constructor
  · intro final
    obtain ⟨earlier, parts⟩ := List.getLast?_eq_some_iff.mp final
    obtain ⟨position, i, before, here, real, rfl, -, nothing⟩ := split_of_executedBefore parts
    exact ⟨position, i, ⟨before, here, real, executedBetween_eq_nil.mp nothing.symm⟩, rfl⟩
  · rintro ⟨position, i, last, rfl⟩
    rw [last.executedBefore_eq, List.getLast?_concat]

theorem LastBefore.dropLast_eq (last : body.LastBefore index position i) :
    (body.executedBefore index).dropLast = body.executedBefore position := by
  rw [last.executedBefore_eq, List.dropLast_concat]

/-- The last token before an index and those before it, by position. -/
theorem exists_getLast?_iff {P : Instruction → List Token → Prop} :
    (∃ last, (body.executedBefore index).getLast? = some last ∧
        P last.instruction (body.executedBefore index).dropLast) ↔
      ∃ position i, body.LastBefore index position i ∧ P i (body.executedBefore position) := by
  constructor
  · rintro ⟨token, final, holds⟩
    obtain ⟨position, i, last, rfl⟩ := getLast?_executedBefore_iff.mp final
    rw [last.dropLast_eq] at holds
    exact ⟨position, i, last, holds⟩
  · rintro ⟨position, i, last, holds⟩
    refine ⟨_, getLast?_executedBefore_iff.mpr ⟨position, i, last, rfl⟩, ?_⟩
    rwa [last.dropLast_eq]

theorem exists_last_iff {P : Instruction → Prop} :
    (∃ last, (body.executedBefore index).getLast? = some last ∧ P last.instruction) ↔
      ∃ i, body.PrecededBy index i ∧ P i := by
  unfold PrecededBy
  rw [exists_getLast?_iff (P := fun i _ => P i), exists_comm]
  simp only [exists_and_right]

/-- Of the stores to a variable before an index, the one at `position` is the last. -/
structure LastStore (body : Body) (index : Nat) (number : UInt64) (position : Nat) : Prop where
  before : position < index
  here : body[position]? = some (.access .astore number)
  last : ∀ k, position < k → k < index → body[k]? ≠ some (.access .astore number)

/-- A store behind which no other goes to the same variable is the last one by position. -/
theorem exists_lastStore_iff {number : UInt64} {P : List Token → Prop} :
    (∃ earlier store between, body.executedBefore index = earlier ++ store :: between ∧
        store.instruction = .access .astore number ∧
        (∀ token ∈ between, token.instruction ≠ .access .astore number) ∧ P earlier) ↔
      ∃ position, body.LastStore index number position ∧ P (body.executedBefore position) := by
  constructor
  · rintro ⟨earlier, store, between, parts, stored, others, holds⟩
    obtain ⟨position, i, before, here, -, rfl, rfl, rfl⟩ := split_of_executedBefore parts
    obtain rfl : i = .access .astore number := stored
    refine ⟨position, ⟨before, here, fun k after within again => ?_⟩, holds⟩
    have member : (⟨.placed k, .access .astore number⟩ : Token) ∈
        body.executedBetween (position + 1) index :=
      mem_executedBetween.mpr ⟨k, _, after, within, again, rfl, rfl⟩
    exact others _ member rfl
  · rintro ⟨position, store, holds⟩
    refine ⟨_, _, _, executedBefore_split store.before store.here rfl, rfl, ?_, holds⟩
    intro token member
    obtain ⟨k, i, after, within, here, -, rfl⟩ := mem_executedBetween.mp member
    intro (same : i = .access .astore number)
    exact store.last k after within (same ▸ here)

end Body

end MutantSieve
