import MutantSieve.Proofs.Text.Reading

namespace MutantSieve

namespace Text

/-- A byte offset between two characters of a text, or at one of its ends. -/
def IsBoundary (text : String) (offset : Nat) : Prop := String.Pos.Raw.IsValid text ⟨offset⟩

instance (text : String) (offset : Nat) : Decidable (IsBoundary text offset) :=
  inferInstanceAs (Decidable (String.Pos.Raw.IsValid text ⟨offset⟩))

/-- The characters from a byte offset on; none if it is no boundary. -/
def suffix? (text : String) (offset : Nat) : Option (List Char) :=
  if boundary : IsBoundary text offset then
    some (text.sliceFrom (text.pos ⟨offset⟩ boundary)).copy.toList
  else none

/-- The part between two byte offsets; none if one of them is no boundary or they are not in
order. -/
def between? (text : String) (first last : Nat) : Option String :=
  if boundaries : IsBoundary text first ∧ IsBoundary text last then
    (text.slice? (text.pos ⟨first⟩ boundaries.1) (text.pos ⟨last⟩ boundaries.2)).map (·.copy)
  else none

variable {text : String} {offset : Nat}

theorem IsBoundary.le (boundary : IsBoundary text offset) : offset ≤ text.utf8ByteSize :=
  boundary.le_utf8ByteSize

theorem isBoundary_zero : IsBoundary text 0 := String.Pos.Raw.isValid_zero

theorem isBoundary_iff_suffix? :
    IsBoundary text offset ↔ ∃ rest, suffix? text offset = some rest := by
  unfold suffix?
  split
  · next boundary => exact iff_of_true boundary ⟨_, rfl⟩
  · next inside => exact iff_of_false inside nofun

theorem suffix?_of_splits {p : text.Pos} {before rest : String} (splits : p.Splits before rest) :
    suffix? text before.utf8ByteSize = some rest.toList := by
  have boundary : IsBoundary text before.utf8ByteSize :=
    String.Pos.Raw.isValid_iff_exists_append.mpr ⟨before, rest, splits.eq_append, rfl⟩
  have same : text.pos ⟨before.utf8ByteSize⟩ boundary = p :=
    String.Pos.ext splits.offset_eq_rawEndPos.symm
  rw [suffix?, dif_pos boundary, same, splits.copy_sliceFrom_eq]

/-- Between two boundaries in order there is a part of the text. -/
theorem exists_between? {first last : Nat} (boundary : IsBoundary text first)
    (behind : IsBoundary text last) (ordered : first ≤ last) :
    ∃ part, between? text first last = some part := by
  have order : text.pos ⟨first⟩ boundary ≤ text.pos ⟨last⟩ behind := String.Pos.le_iff.mpr ordered
  rw [between?, dif_pos ⟨boundary, behind⟩, String.slice?, dif_pos order]
  exact ⟨_, rfl⟩

end Text

namespace Cursor

/-- A cursor that has been moved to from the start of a text. -/
def StandsIn (cur : Cursor) (text : String) : Prop := ∃ read, (start text).Passes read cur

variable {cur next : Cursor} {text : String} {read : List Char}

theorem Passes.standsIn (passes : cur.Passes read next) (stands : cur.StandsIn text) :
    next.StandsIn text := by
  obtain ⟨before, earlier⟩ := stands
  exact ⟨_, earlier.trans passes⟩

theorem standsIn_start (text : String) : (start text).StandsIn text := ⟨[], .refl _⟩

theorem StandsIn.splits (stands : cur.StandsIn text) : ∃ before : String,
    before.utf8ByteSize = cur.position ∧ text = before ++ String.ofList cur.rest := by
  obtain ⟨read, passes⟩ := stands
  refine ⟨String.ofList read, ?_, ?_⟩
  · rw [← utf8Length_toList, String.toList_ofList, passes.position]
    exact (Nat.zero_add _).symm
  · rw [← String.ofList_append, ← passes.rest]
    exact String.ofList_toList.symm

/-- The text from a cursor on is what the cursor has left. -/
theorem StandsIn.suffix? (stands : cur.StandsIn text) :
    Text.suffix? text cur.position = some cur.rest := by
  obtain ⟨before, position, parts⟩ := stands.splits
  have suffix := Text.suffix?_of_splits (String.Pos.splits_ofEqAppend parts)
  rw [position, String.toList_ofList] at suffix
  exact suffix

theorem StandsIn.isBoundary (stands : cur.StandsIn text) : Text.IsBoundary text cur.position :=
  Text.isBoundary_iff_suffix?.mpr ⟨_, stands.suffix?⟩

theorem standsIn_of_suffix? {offset : Nat} {rest : List Char}
    (suffix : Text.suffix? text offset = some rest) : (⟨offset, rest⟩ : Cursor).StandsIn text := by
  have boundary := Text.isBoundary_iff_suffix?.mpr ⟨rest, suffix⟩
  obtain ⟨before, behind, parts, position⟩ := String.Pos.Raw.isValid_iff_exists_append.mp boundary
  obtain rfl : offset = before.utf8ByteSize := congrArg String.Pos.Raw.byteIdx position
  rw [Text.suffix?_of_splits (String.Pos.splits_ofEqAppend parts)] at suffix
  obtain rfl := Option.some.inj suffix
  refine ⟨before.toList, ?_, ?_⟩
  · rw [start, parts, String.toList_append]
  · rw [utf8Length_toList, start, Nat.zero_add]

/-- The text between two cursors is what is read between them. -/
theorem Passes.between? (passes : cur.Passes read next) (stands : cur.StandsIn text) :
    Text.between? text cur.position next.position = some (String.ofList read) := by
  obtain ⟨before, position, parts⟩ := stands.splits
  have cut : String.ofList cur.rest = String.ofList read ++ String.ofList next.rest := by
    rw [← String.ofList_append, ← passes.rest]
  rw [cut] at parts
  have first : (text.pos ⟨cur.position⟩ stands.isBoundary).Splits before
      (String.ofList read ++ String.ofList next.rest) :=
    ⟨parts, String.Pos.Raw.ext position.symm⟩
  have last : (text.pos ⟨next.position⟩ (passes.standsIn stands).isBoundary).Splits
      (before ++ String.ofList read) (String.ofList next.rest) := by
    refine ⟨by rw [parts, String.append_assoc], String.Pos.Raw.ext ?_⟩
    have bytes : (String.ofList read).utf8ByteSize = utf8Length read := by
      rw [← utf8Length_toList, String.toList_ofList]
    simp only [String.offset_pos, String.byteIdx_rawEndPos, String.utf8ByteSize_append, position,
      bytes, passes.position]
  obtain ⟨ordered, copied⟩ := String.copy_slice_eq_iff_splits.mpr ⟨_, _, first, last⟩
  rw [Text.between?, dif_pos ⟨stands.isBoundary, (passes.standsIn stands).isBoundary⟩,
    String.slice?, dif_pos ordered, Option.map_some, copied]

end Cursor

end MutantSieve
