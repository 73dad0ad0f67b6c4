import MutantSieve.Proofs.Pattern.Composition
import MutantSieve.Proofs.Pattern.FirstPath
import MutantSieve.Proofs.Pattern.SlotUsage
import MutantSieve.Rule.Anchored

namespace MutantSieve

namespace Body

variable {body : Body} {index : Nat}

/-- The tokens before an index that are not markers. -/
def executedBefore (body : Body) (index : Nat) : List Token :=
  (body.tokens.take index).filter fun token => !token.instruction.isMarker

/-- The tokens that are not markers. -/
def executed (body : Body) : List Token :=
  body.tokens.filter fun token => !token.instruction.isMarker

theorem lastReal_eq_getLast? (body : Body) (index : Nat) :
    body.lastReal index = (body.executedBefore index).getLast? := by
  rw [lastReal_eq, executedBefore, List.getLast?_eq_head?_reverse, ← List.filter_reverse,
    List.head?_filter]

/-- The last instruction before an index is one of the body. -/
theorem mem_of_getLast? {last : Token}
    (here : (body.executedBefore index).getLast? = some last) : last.instruction ∈ body := by
  have member := List.mem_of_mem_take (List.mem_filter.mp (List.mem_of_getLast? here)).1
  obtain ⟨position, within, rfl⟩ := List.mem_mapIdx.mp member
  exact Array.mem_toList_iff.mp (List.getElem_mem within)

theorem nodup_tokens (body : Body) : body.tokens.Nodup := by
  rw [List.Nodup, List.pairwise_iff_getElem]
  intro i j _ _ before same
  simp only [tokens, List.getElem_mapIdx, Token.mk.injEq, TokenId.placed.injEq] at same
  omega

theorem executed_eq {anchor : Token} (here : body.token? index = some anchor)
    (real : anchor.instruction.isMarker = false) : ∃ later, body.executed =
      body.executedBefore index ++ anchor :: later := by
  rw [← tokens_getElem?] at here
  obtain ⟨within, rfl⟩ := List.getElem?_eq_some_iff.mp here
  refine ⟨(body.tokens.drop (index + 1)).filter fun token => !token.instruction.isMarker, ?_⟩
  rw [executed, executedBefore]
  conv_lhs => rw [← List.take_append_drop index body.tokens, List.drop_eq_getElem_cons within]
  rw [List.filter_append, List.filter_cons_of_pos (by simp [real])]

theorem id_of_token? {token : Token} (here : body.token? index = some token) :
    token.id = .placed index := by
  obtain ⟨instruction, -, rfl⟩ := Option.map_eq_some_iff.mp here
  rfl

/-- The token at an index stands behind those before it, and nowhere else. -/
theorem executed_getElem?_iff {token : Token} {j : Nat} :
    body.executed[j]? = some token ∧ token.id = .placed index ↔
      body.token? index = some token ∧ token.instruction.isMarker = false ∧
        j = (body.executedBefore index).length := by
  have found {token : Token} (here : body.token? index = some token)
      (real : token.instruction.isMarker = false) :
      body.executed[(body.executedBefore index).length]? = some token := by
    obtain ⟨later, parts⟩ := executed_eq here real
    rw [parts, List.getElem?_append_right (Nat.le_refl _), Nat.sub_self, List.getElem?_cons_zero]
  constructor
  · rintro ⟨here, placed⟩
    obtain ⟨member, real⟩ := List.mem_filter.mp (List.mem_of_getElem? here)
    obtain ⟨position, atPosition⟩ := List.mem_iff_getElem?.mp member
    rw [tokens_getElem?] at atPosition
    obtain rfl : position = index := by simpa [id_of_token? atPosition] using placed
    rw [Bool.not_eq_true'] at real
    refine ⟨atPosition, real, ?_⟩
    exact (List.getElem?_inj (List.getElem?_eq_some_iff.mp here).1 (body.nodup_tokens.filter _)).mp
      (here.trans (found atPosition real).symm)
  · rintro ⟨here, real, rfl⟩
    exact ⟨found here real, id_of_token? here⟩

end Body

theorem Method.realBefore_eq_some_iff {method : Method} {index : Nat} {last : Token} :
    method.realBefore index = some last ↔
      index < method.body.size ∧ (method.body.executedBefore index).getLast? = some last := by
  rw [realBefore, Body.realBefore, ← Body.lastReal_eq_getLast?]
  split
  · next within => rw [if_pos (Nat.le_of_lt within), and_iff_right within]
  · next outside => simp [outside]

theorem Method.realBefore_eq_some {method : Method} {index : Nat} {last : Token}
    (here : method.realBefore index = some last) :
    (method.body.executedBefore index).getLast? = some last :=
  (realBefore_eq_some_iff.mp here).2

theorem Token.token?_anchored (t : Token) : t.anchored.token? anchorSlot = some t.id :=
  congrArg (·.bind Value.token?)
    ((Context.get?_store .empty anchorSlot.key anchorSlot.key (.token t.id) rfl).trans (if_pos rfl))

namespace Query

variable {tokens : List Token} {motif : Query} {c : Context}

theorem derives_anchored (spares : anchorSlot.key ∉ motif.targets) :
    (∃ start ≤ tokens.length, ∃ k d, Derives tokens motif.anchored start c k d) ↔
      ∃ start j d token, Derives tokens motif start c j d ∧ tokens[j]? = some token ∧
        c.token? anchorSlot = some token.id := by
  constructor
  · rintro ⟨start, within, k, d, whole⟩
    obtain ⟨l, c₃, toAnchor, -⟩ := whole.split
    obtain ⟨j, c₂, toMotif, atAnchor⟩ := toAnchor.split
    obtain ⟨i, c₁, before, derivation⟩ := toMotif.split
    obtain ⟨-, rfl⟩ := (derives_zeroOrMore_any (before.le_length within)).mp before
    obtain ⟨-, token, here, accepts⟩ := derives_matching.mp atAnchor
    obtain ⟨anchored, rfl⟩ := Prod.mk.inj accepts
    rw [decide_eq_true_iff, Context.token?, derivation.get?_eq spares] at anchored
    exact ⟨i, j, _, token, derivation, here, anchored⟩
  · rintro ⟨start, j, d, token, derivation, here, anchored⟩
    have within := (List.getElem?_eq_some_iff.mp here).1
    have accepts : (Predicate.sameToken anchorSlot).test token d = (true, d) := by
      have same : d.token? anchorSlot = c.token? anchorSlot :=
        congrArg (·.bind Value.token?) (derivation.get?_eq spares)
      rw [Predicate.test, same, anchored, decide_eq_true rfl]
    refine ⟨start, by have := derivation.le; omega, j + 1, d, ?_⟩
    exact .append (.append (.append (.leave .done) derivation) (.accept here accepts .done))
      (.leave .done)

/-- A derivation up to an executed instruction needs the instructions before it alone. -/
theorem derives_executedBefore {body : Body} {index start : Nat} {anchor : Token} {d : Context}
    (here : body.token? index = some anchor) (real : anchor.instruction.isMarker = false) :
    Derives body.executed motif start c (body.executedBefore index).length d ↔
      Derives (body.executedBefore index) motif start c (body.executedBefore index).length d := by
  obtain ⟨later, parts⟩ := Body.executed_eq here real
  rw [parts, ← derives_take (Nat.le_refl _), List.take_left]

/-- An anchored motif is found at an index if and only if an instruction stands there that is not a
marker and the clauses of the motif derive the last of those executed before it. -/
theorem endsBefore_anchored (spares : anchorSlot.key ∉ motif.targets) (method : Method)
    (index : Nat) :
    (motif.anchored.matcher (some .marker)).endsBefore method index = true ↔
      ∃ anchor, method.body.token? index = some anchor ∧ anchor.instruction.isMarker = false ∧
        MatchesEnd (method.body.executedBefore index) motif anchor.anchored := by
  rw [Matcher.endsBefore]
  cases here : method.body.token? index with
  | none => simp
  | some anchor =>
    have significant : (motif.anchored.matcher (some .marker)).significant method.body
        anchor.anchored = method.body.executed :=
      Matcher.significant_eq (fun p same => by cases same; rfl) method.body _ anchor.anchored
    change (motif.anchored.program.search anchor.anchored 0 .empty _).isSome = true ↔ _
    rw [significant, search_isSome_iff, derives_anchored spares]
    constructor
    · rintro ⟨start, j, d, token, derivation, found, anchored⟩
      rw [anchor.token?_anchored, Body.id_of_token? here, Option.some.injEq] at anchored
      obtain ⟨same, real, rfl⟩ := Body.executed_getElem?_iff.mp ⟨found, anchored.symm⟩
      obtain rfl := Option.some.inj (here.symm.trans same)
      exact ⟨anchor, rfl, real, start, d, (derives_executedBefore here real).mp derivation⟩
    · rintro ⟨_, same, real, start, d, derivation⟩
      obtain rfl := Option.some.inj same
      obtain ⟨found, -⟩ := Body.executed_getElem?_iff.mpr ⟨here, real, rfl⟩
      exact ⟨start, _, d, anchor, (derives_executedBefore here real).mpr derivation, found,
        anchor.token?_anchored⟩

/-- The matcher of an anchored motif accepts an index if and only if an executed instruction stands
there and, at its position among the executed ones, a segment ends that the clauses of the motif
derive when nothing but the anchor is bound. -/
theorem endsBefore_iff_segment {m : Matcher} (compiled : motif.anchoredMatcher? = .ok m)
    (spares : anchorSlot.key ∉ motif.targets) (method : Method) (index : Nat) :
    m.endsBefore method index = true ↔
      ∃ anchor t, method.body.token? index = some anchor ∧ anchor.instruction.isMarker = false ∧
        method.body.executed[t]? = some anchor ∧
        ∃ k ≤ t, ∃ d, Derives method.body.executed motif k anchor.anchored t d := by
  obtain ⟨rfl, -, -⟩ := compile_eq_ok compiled
  refine (endsBefore_anchored spares method index).trans ⟨?_, ?_⟩
  · rintro ⟨anchor, here, real, k, d, derivation⟩
    obtain ⟨found, -⟩ := Body.executed_getElem?_iff.mpr ⟨here, real, rfl⟩
    exact ⟨anchor, _, here, real, found, k, derivation.le, d,
      (derives_executedBefore here real).mpr derivation⟩
  · rintro ⟨anchor, t, here, real, found, k, -, d, derivation⟩
    -- The anchor stands at one position only, right behind what is executed before it.
    obtain ⟨-, -, rfl⟩ := Body.executed_getElem?_iff.mp ⟨found, Body.id_of_token? here⟩
    exact ⟨anchor, here, real, k, d, (derives_executedBefore here real).mp derivation⟩

/-- An access of a variable and the next one of the same variable. -/
def variableAgain : Query :=
  matching (.captureVariable ⟨1, "variable"⟩) ++
    zeroOrMore (rejecting (.sameVariable ⟨1, "variable"⟩)) ++
    matching (.sameVariable ⟨1, "variable"⟩)

/-- A method that stores a variable, loads another one, and loads the first to return it. -/
def loadsStored : Method :=
  ⟨⟨"a/B", "m", "()I"⟩,
    #[.access .istore 1, .access .iload 2, .line 7 3, .access .iload 1, .label 4,
      .simple .ireturn]⟩

/-- The motif is found before the return, but not at the label that stands between. -/
theorem endsBefore_iff_segment_variableAgain :
    let matcher := variableAgain.anchored.matcher (some .marker)
    variableAgain.anchoredMatcher? = .ok matcher ∧ matcher.endsBefore loadsStored 5 = true ∧
      matcher.endsBefore loadsStored 4 = false := by
  intro matcher
  have compiled : variableAgain.anchoredMatcher? = .ok matcher := rfl
  have found := endsBefore_iff_segment compiled (by decide) loadsStored
  refine ⟨compiled, (found 5).mpr ?_, eq_false_of_ne_true fun early => ?_⟩
  · exact ⟨_, 3, rfl, rfl, rfl, 0, Nat.zero_le 3, _,
      .accept rfl rfl (.round (.reject rfl rfl .done) (.leave (.accept rfl rfl .done)))⟩
  · obtain ⟨anchor, t, here, real, -⟩ := (found 4).mp early
    obtain rfl := Option.some.inj here
    cases real

end Query

end MutantSieve
