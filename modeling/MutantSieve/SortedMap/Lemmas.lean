import MutantSieve.SortedMap.Basic

namespace MutantSieve.SortedMap

variable {κ ν : Type} [Ord κ] [Std.LawfulEqOrd κ]

theorem lookup_place [DecidableEq κ] (k k' : κ) (v : ν) (entries : List (κ × ν)) :
    lookup k' (place k v entries) = if k' = k then some v else lookup k' entries := by
  induction entries with
  | nil => simp [place, lookup]
  | cons d rest ih =>
    unfold place
    split
    · simp [lookup]
    · next same =>
      obtain rfl := Std.LawfulEqCmp.eq_of_compare same
      by_cases equal : k' = d.1 <;> simp [lookup, equal]
    · next after =>
      have different : k ≠ d.1 := by
        rintro rfl
        simp at after
      by_cases equal : k' = d.1
      · simp [lookup, equal, Ne.symm different]
      · simp [lookup, equal, ih]

theorem lookup_eq_some_iff {k : κ} {v : ν} {entries : List (κ × ν)}
    (increasing : entries.Pairwise fun a b => compare a.1 b.1 = .lt) :
    lookup k entries = some v ↔ (k, v) ∈ entries := by
  induction entries with
  | nil => simp [lookup]
  | cons d rest ih =>
    obtain ⟨first, others⟩ := List.pairwise_cons.mp increasing
    have absent (w : ν) : (d.1, w) ∉ rest := by
      intro member
      simpa using first _ member
    by_cases equal : k = d.1
    · subst equal
      simp [lookup, absent, Prod.ext_iff, eq_comm]
    · simp [lookup, equal, ih others, Prod.ext_iff]

variable [Std.TransOrd κ]

theorem get?_insert [DecidableEq κ] (map : SortedMap κ ν) (k k' : κ) (v : ν) :
    (map.insert k v).get? k' = if k' = k then some v else map.get? k' :=
  lookup_place k k' v map.entries

omit [Std.TransOrd κ] in
theorem get?_eq_some_iff {map : SortedMap κ ν} {k : κ} {v : ν} :
    map.get? k = some v ↔ (k, v) ∈ map.entries :=
  lookup_eq_some_iff map.increasing

/-- Maps with the same lookups are equal. -/
theorem ext_get? {a b : SortedMap κ ν} (same : ∀ k, a.get? k = b.get? k) : a = b := by
  have members (e : κ × ν) : e ∈ a.entries ↔ e ∈ b.entries := by
    rw [← get?_eq_some_iff, ← get?_eq_some_iff, same]
  obtain ⟨as, ha⟩ := a
  obtain ⟨bs, hb⟩ := b
  refine ext ?_
  simp only at members ⊢
  clear same
  induction as generalizing bs with
  | nil =>
    cases bs with
    | nil => rfl
    | cons b bs => simpa using members b
  | cons a as ih =>
    cases bs with
    | nil => simpa using members a
    | cons b bs =>
      obtain ⟨firstA, restA⟩ := List.pairwise_cons.mp ha
      obtain ⟨firstB, restB⟩ := List.pairwise_cons.mp hb
      have heads : a = b := by
        rcases List.mem_cons.mp ((members a).mp (List.mem_cons_self ..)) with equal | later
        · exact equal
        · rcases List.mem_cons.mp ((members b).mpr (List.mem_cons_self ..)) with equal | later'
          · exact equal.symm
          · have := Std.TransCmp.lt_trans (firstB a later) (firstA b later')
            simp at this
      subst heads
      have tails : as = bs := ih restA bs restB fun e => by
        have := members e
        simp only [List.mem_cons] at this
        constructor <;> intro member
        · rcases this.mp (Or.inr member) with rfl | found
          · simpa using firstA _ member
          · exact found
        · rcases this.mpr (Or.inr member) with rfl | found
          · simpa using firstB _ member
          · exact found
      rw [tails]

omit [Std.TransOrd κ] [Std.LawfulEqOrd κ] in
theorem not_mem_of_mem_tail [Std.TransOrd κ] {as bs : List (κ × ν)} {a b : κ × ν}
    (ha : (a :: as).Pairwise fun a b => compare a.1 b.1 = .lt)
    (hb : (b :: bs).Pairwise fun a b => compare a.1 b.1 = .lt) (later : a ∈ bs) :
    b ∉ a :: as := by
  have before := (List.pairwise_cons.mp hb).1 a later
  intro member
  rcases List.mem_cons.mp member with rfl | rest
  · simp at before
  · have := Std.TransCmp.lt_trans before ((List.pairwise_cons.mp ha).1 b rest)
    simp at this

omit [Std.LawfulEqOrd κ] in
theorem length_le_of_subset {as bs : List (κ × ν)}
    (ha : as.Pairwise fun a b => compare a.1 b.1 = .lt)
    (hb : bs.Pairwise fun a b => compare a.1 b.1 = .lt) (within : as ⊆ bs) :
    as.length ≤ bs.length := by
  induction bs generalizing as with
  | nil => simp [List.subset_nil.mp within]
  | cons b bs ih =>
    cases as with
    | nil => simp
    | cons a as =>
      have others := (List.pairwise_cons.mp hb).2
      rcases List.mem_cons.mp (within (List.mem_cons_self ..)) with rfl | later
      · have : as ⊆ bs := fun e member => by
          rcases List.mem_cons.mp (within (List.mem_cons_of_mem _ member)) with rfl | found
          · simpa using (List.pairwise_cons.mp ha).1 _ member
          · exact found
        simpa using ih (List.pairwise_cons.mp ha).2 others this
      · have : a :: as ⊆ bs := fun e member => by
          rcases List.mem_cons.mp (within member) with rfl | found
          · exact absurd member (not_mem_of_mem_tail ha hb later)
          · exact found
        exact Nat.le_succ_of_le (ih ha others this)

omit [Std.LawfulEqOrd κ] in
/-- Maps of one size are equal if one has all entries of the other. -/
theorem eq_of_subset {a b : SortedMap κ ν} (sizes : a.size = b.size)
    (within : a.entries ⊆ b.entries) : a = b := by
  obtain ⟨as, ha⟩ := a
  obtain ⟨bs, hb⟩ := b
  refine ext ?_
  simp only [size] at sizes within ⊢
  induction as generalizing bs with
  | nil => simpa [eq_comm] using sizes
  | cons a as ih =>
    cases bs with
    | nil => simp at sizes
    | cons b bs =>
      have others := (List.pairwise_cons.mp hb).2
      rcases List.mem_cons.mp (within (List.mem_cons_self ..)) with rfl | later
      · have : as ⊆ bs := fun e member => by
          rcases List.mem_cons.mp (within (List.mem_cons_of_mem _ member)) with rfl | found
          · simpa using (List.pairwise_cons.mp ha).1 _ member
          · exact found
        rw [ih (List.pairwise_cons.mp ha).2 bs others (by simpa using sizes) this]
      · have : a :: as ⊆ bs := fun e member => by
          rcases List.mem_cons.mp (within member) with rfl | found
          · exact absurd member (not_mem_of_mem_tail ha hb later)
          · exact found
        have := length_le_of_subset ha others this
        simp at this sizes
        omega

omit [Std.LawfulEqOrd κ] in
theorem place_append {k : κ} {v : ν} {entries : List (κ × ν)}
    (before : ∀ e ∈ entries, compare e.1 k = .lt) : place k v entries = entries ++ [(k, v)] := by
  induction entries with
  | nil => rfl
  | cons d rest ih =>
    have after : compare k d.1 = .gt :=
      Std.OrientedCmp.gt_of_lt (before d (List.mem_cons_self ..))
    have later := ih fun e member => before e (List.mem_cons_of_mem _ member)
    simp only [place, after, later, List.cons_append]

theorem entries_foldl_insert {map : SortedMap κ ν} {later : List (κ × ν)}
    (increasing : (map.entries ++ later).Pairwise fun a b => compare a.1 b.1 = .lt) :
    (later.foldl (fun map e => map.insert e.1 e.2) map).entries = map.entries ++ later := by
  induction later generalizing map with
  | nil => exact (List.append_nil _).symm
  | cons e later ih =>
    have before : ∀ d ∈ map.entries, compare d.1 e.1 = .lt := fun d member =>
      (List.pairwise_append.mp increasing).2.2 d member e (List.mem_cons_self ..)
    have placed : (map.insert e.1 e.2).entries = map.entries ++ [e] := place_append before
    rw [List.foldl_cons, ih (by rwa [placed, List.append_assoc]), placed, List.append_assoc,
      List.singleton_append]

/-- A map is the map of its entries. -/
theorem ofList_entries (map : SortedMap κ ν) : ofList map.entries = map :=
  ext (entries_foldl_insert map.increasing)

end MutantSieve.SortedMap
