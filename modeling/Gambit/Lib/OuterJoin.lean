import Gambit.Lib.SortedDict
import Mathlib.Data.List.Perm.Basic

/-!
# Full outer joins of keyed columns

A full join on the key has a row for each row of the left frame, with the
right value of its key or none, and a row for each right key that the left
frame lacks.  The order of the rows is not part of what a join promises.
Joining columns one after the other gives, in some order, the table with a row
for each key of any column.
-/

set_option autoImplicit false

namespace OuterJoin

variable {κ ν : Type} [LinearOrder κ]

/-- Rows under a key, with a cell for each column joined so far. -/
structure Frame (κ ν : Type) where
  width : Nat
  rows : List (κ × List (Option ν))

namespace Frame

def keys (frame : Frame κ ν) : List κ := frame.rows.map Prod.fst

def ofColumn (column : SortedDict κ ν) : Frame κ ν :=
  ⟨1, column.items.map fun item => (item.1, [some item.2])⟩

end Frame

def joinedRows (left : Frame κ ν) (right : SortedDict κ ν) : List (κ × List (Option ν)) :=
  left.rows.map (fun row => (row.1, row.2 ++ [right.get? row.1])) ++
    (right.items.filter fun item => item.1 ∉ left.keys).map fun item =>
      (item.1, List.replicate left.width none ++ [some item.2])

/-- What is promised of a full join that coalesces the keys. -/
structure FullJoin (join : Frame κ ν → SortedDict κ ν → Frame κ ν) : Prop where
  width : ∀ left right, (join left right).width = left.width + 1
  rows : ∀ left right, (join left right).rows.Perm (joinedRows left right)

/-- The frame is, in some order, the table of the columns. -/
structure Tabulates (columns : List (SortedDict κ ν)) (frame : Frame κ ν) : Prop where
  width : frame.width = columns.length
  distinct : frame.keys.Nodup
  rows : ∀ row, row ∈ frame.rows ↔
    (∃ column ∈ columns, row.1 ∈ column.keys) ∧ row.2 = columns.map (·.get? row.1)

section Columns

variable {column : SortedDict κ ν} {columns : List (SortedDict κ ν)} {frame : Frame κ ν}

theorem distinct_keys (column : SortedDict κ ν) : column.keys.Nodup :=
  List.pairwise_map.mpr (column.sorted.imp fun less => less.ne)

theorem mem_keys_iff {key : κ} : key ∈ column.keys ↔ ∃ value, column.get? key = some value := by
  simp only [SortedDict.get?_eq_some_iff]
  constructor
  · intro listed
    obtain ⟨item, member, rfl⟩ := List.mem_map.mp listed
    exact ⟨item.2, member⟩
  · rintro ⟨value, member⟩
    exact List.mem_map_of_mem (f := Prod.fst) member

theorem get?_eq_none_iff_not_mem {key : κ} : column.get? key = none ↔ key ∉ column.keys := by
  rw [mem_keys_iff, ← Option.isSome_iff_exists, Option.not_isSome_iff_eq_none]

theorem ofColumn_ascending (column : SortedDict κ ν) :
    (Frame.ofColumn column).keys.Pairwise (· < ·) := by
  rw [Frame.keys, Frame.ofColumn, List.map_map]
  exact List.pairwise_map.mpr column.sorted

theorem tabulates_column (column : SortedDict κ ν) :
    Tabulates [column] (Frame.ofColumn column) where
  width := rfl
  distinct := by
    rw [Frame.keys, Frame.ofColumn, List.map_map]
    exact distinct_keys column
  rows := by
    rintro ⟨key, cells⟩
    simp only [Frame.ofColumn, List.mem_map, Prod.mk.injEq, List.mem_singleton, exists_eq_left,
      List.map_cons, List.map_nil, mem_keys_iff, SortedDict.get?_eq_some_iff]
    constructor
    · rintro ⟨⟨key', value⟩, member, rfl, rfl⟩
      exact ⟨⟨value, member⟩, by rw [(SortedDict.get?_eq_some_iff _ _ _).mpr member]⟩
    · rintro ⟨⟨value, member⟩, rfl⟩
      exact ⟨(key, value), member, rfl, by rw [(SortedDict.get?_eq_some_iff _ _ _).mpr member]⟩

theorem Tabulates.mem_keys (tabulates : Tabulates columns frame) {key : κ} :
    key ∈ frame.keys ↔ ∃ column ∈ columns, key ∈ column.keys := by
  constructor
  · intro listed
    obtain ⟨row, member, rfl⟩ := List.mem_map.mp listed
    exact ((tabulates.rows row).mp member).1
  · intro present
    exact List.mem_map.mpr ⟨(key, columns.map fun column => column.get? key),
      (tabulates.rows _).mpr ⟨present, rfl⟩, rfl⟩

/-- The cells of a row that the frame lacks are none. -/
theorem Tabulates.blank (tabulates : Tabulates columns frame) {key : κ}
    (absent : key ∉ frame.keys) :
    columns.map (fun column => column.get? key) = List.replicate frame.width none := by
  rw [tabulates.width, ← List.map_const']
  refine List.map_congr_left fun column listed => get?_eq_none_iff_not_mem.mpr fun present => ?_
  exact absent (tabulates.mem_keys.mpr ⟨column, listed, present⟩)

theorem Tabulates.join {joins : Frame κ ν → SortedDict κ ν → Frame κ ν} (full : FullJoin joins)
    (tabulates : Tabulates columns frame) (column : SortedDict κ ν) :
    Tabulates (columns ++ [column]) (joins frame column) where
  width := by rw [full.width, tabulates.width, List.length_append, List.length_singleton]
  distinct := by
    have perm := (full.rows frame column).map Prod.fst
    rw [Frame.keys, perm.nodup_iff, joinedRows, List.map_append, List.map_map, List.map_map]
    refine List.Nodup.append tabulates.distinct ?_ ?_
    · exact (distinct_keys column).sublist ((List.filter_sublist).map _)
    · intro key left right
      obtain ⟨item, listed, rfl⟩ := List.mem_map.mp right
      have absent := (List.mem_filter.mp listed).2
      rw [decide_eq_true_eq] at absent
      exact absent left
  rows := by
    rintro ⟨key, cells⟩
    rw [(full.rows frame column).mem_iff, joinedRows, List.mem_append, List.mem_map, List.mem_map]
    simp only [List.mem_append, List.mem_singleton, List.map_append, List.map_cons, List.map_nil]
    constructor
    · rintro (⟨row, member, same⟩ | ⟨item, listed, same⟩)
      · cases same
        obtain ⟨⟨other, listed, present⟩, cellsEq⟩ := (tabulates.rows row).mp member
        exact ⟨⟨other, Or.inl listed, present⟩, by rw [cellsEq]⟩
      · cases same
        obtain ⟨member, absent⟩ := List.mem_filter.mp listed
        rw [decide_eq_true_eq] at absent
        have here := (SortedDict.get?_eq_some_iff _ _ _).mpr member
        refine ⟨⟨column, Or.inr rfl, mem_keys_iff.mpr ⟨_, here⟩⟩, ?_⟩
        rw [tabulates.blank absent, here]
    · rintro ⟨⟨other, either, present⟩, rfl⟩
      by_cases inFrame : key ∈ frame.keys
      · refine Or.inl ⟨(key, columns.map (·.get? key)), ?_, rfl⟩
        exact (tabulates.rows _).mpr ⟨tabulates.mem_keys.mp inFrame, rfl⟩
      · rcases either with listed | rfl
        · exact absurd (tabulates.mem_keys.mpr ⟨other, listed, present⟩) inFrame
        · obtain ⟨value, here⟩ := mem_keys_iff.mp present
          refine Or.inr ⟨(key, value), List.mem_filter.mpr
            ⟨(SortedDict.get?_eq_some_iff _ _ _).mp here, by simpa using inFrame⟩, ?_⟩
          rw [tabulates.blank inFrame, here]

/-- Joining the columns in turn tabulates them. -/
theorem Tabulates.joinAll {joins : Frame κ ν → SortedDict κ ν → Frame κ ν} (full : FullJoin joins)
    (later : List (SortedDict κ ν)) : ∀ {columns : List (SortedDict κ ν)} {frame : Frame κ ν},
      Tabulates columns frame → Tabulates (columns ++ later) (later.foldl joins frame) := by
  induction later with
  | nil => simp
  | cons column later ih =>
      intro columns frame tabulates
      have next := ih (tabulates.join full column)
      rw [List.append_assoc, List.singleton_append] at next
      exact next

end Columns

/-! ## Joins in a given order -/

/-- The join that keeps the left rows in their order and appends the rest. -/
def inOrder (left : Frame κ ν) (right : SortedDict κ ν) : Frame κ ν :=
  ⟨left.width + 1, joinedRows left right⟩

theorem inOrder_full : FullJoin (inOrder : Frame κ ν → SortedDict κ ν → Frame κ ν) :=
  ⟨fun _ _ => rfl, fun _ _ => List.Perm.refl _⟩

/-- A join whose rows come with the greatest key first. -/
def descending (left : Frame κ ν) (right : SortedDict κ ν) : Frame κ ν :=
  ⟨left.width + 1, (joinedRows left right).insertionSort fun a b => b.1 ≤ a.1⟩

theorem descending_full : FullJoin (descending : Frame κ ν → SortedDict κ ν → Frame κ ν) :=
  ⟨fun _ _ => rfl, fun _ _ => List.perm_insertionSort ..⟩

theorem descending_keys (left : Frame κ ν) (right : SortedDict κ ν) :
    (descending left right).keys.Pairwise (· ≥ ·) := by
  have total : Std.Total fun a b : κ × List (Option ν) => b.1 ≤ a.1 := ⟨fun a b => le_total b.1 a.1⟩
  have trans : IsTrans (κ × List (Option ν)) fun a b => b.1 ≤ a.1 :=
    ⟨fun _ _ _ ab bc => bc.trans ab⟩
  exact List.pairwise_map.mpr (List.pairwise_insertionSort _ (joinedRows left right))

end OuterJoin
