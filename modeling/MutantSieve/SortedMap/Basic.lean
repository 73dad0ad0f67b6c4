namespace MutantSieve

variable {κ ν : Type} [Ord κ]

/-- A finite map with at most one value per key, listed in strictly increasing key order. -/
structure SortedMap (κ ν : Type) [Ord κ] where
  entries : List (κ × ν)
  increasing : entries.Pairwise fun a b => compare a.1 b.1 = .lt

namespace SortedMap

/-- The value listed under a key. -/
def lookup (k : κ) : List (κ × ν) → Option ν
  | [] => none
  | e :: rest => if compare k e.1 = .eq then some e.2 else lookup k rest

/-- Puts an entry in its place, replacing the one with the same key. -/
def place (k : κ) (v : ν) : List (κ × ν) → List (κ × ν)
  | [] => [(k, v)]
  | e :: rest =>
    match compare k e.1 with
    | .lt => (k, v) :: e :: rest
    | .eq => (k, v) :: rest
    | .gt => e :: place k v rest

theorem mem_place {k : κ} {v : ν} {e : κ × ν} {entries : List (κ × ν)}
    (member : e ∈ place k v entries) : e = (k, v) ∨ e ∈ entries := by
  induction entries with
  | nil => simpa [place] using member
  | cons d rest ih => grind [place]

/-- The map without entries. -/
def empty : SortedMap κ ν := ⟨[], .nil⟩

instance : EmptyCollection (SortedMap κ ν) := ⟨empty⟩

/-- The value of a key. -/
def get? (map : SortedMap κ ν) (k : κ) : Option ν := lookup k map.entries

/-- The keys, in increasing order. -/
def keys (map : SortedMap κ ν) : List κ := map.entries.map (·.1)

/-- How many keys have a value. -/
def size (map : SortedMap κ ν) : Nat := map.entries.length

theorem ext {a b : SortedMap κ ν} (same : a.entries = b.entries) : a = b := by
  cases a
  cases b
  simpa using same

instance [DecidableEq κ] [DecidableEq ν] : DecidableEq (SortedMap κ ν) := fun a b =>
  if same : a.entries = b.entries then isTrue (ext same)
  else isFalse fun equal => same (equal ▸ rfl)

@[simp] theorem get?_empty (k : κ) : (∅ : SortedMap κ ν).get? k = none := rfl

variable [Std.LawfulEqOrd κ]

theorem place_increasing [Std.TransOrd κ] (k : κ) (v : ν) {entries : List (κ × ν)}
    (increasing : entries.Pairwise fun a b => compare a.1 b.1 = .lt) :
    (place k v entries).Pairwise fun a b => compare a.1 b.1 = .lt := by
  induction entries with
  | nil => simp [place]
  | cons d rest ih =>
    obtain ⟨first, others⟩ := List.pairwise_cons.mp increasing
    unfold place
    split
    · next before =>
      refine List.pairwise_cons.mpr ⟨fun e member => ?_, increasing⟩
      rcases List.mem_cons.mp member with rfl | later
      · exact before
      · exact Std.TransCmp.lt_trans before (first e later)
    · next same =>
      obtain rfl := Std.LawfulEqCmp.eq_of_compare same
      exact List.pairwise_cons.mpr ⟨first, others⟩
    · next after =>
      refine List.pairwise_cons.mpr ⟨fun e member => ?_, ih others⟩
      rcases mem_place member with rfl | later
      · exact Std.OrientedCmp.lt_of_gt after
      · exact first e later

variable [Std.TransOrd κ]

/-- Gives a key a value, replacing the one it had. -/
def insert (map : SortedMap κ ν) (k : κ) (v : ν) : SortedMap κ ν :=
  ⟨place k v map.entries, place_increasing k v map.increasing⟩

/-- The map of a list of entries; of several with one key the last counts. -/
def ofList (entries : List (κ × ν)) : SortedMap κ ν :=
  entries.foldl (fun map e => map.insert e.1 e.2) ∅

end SortedMap

end MutantSieve
