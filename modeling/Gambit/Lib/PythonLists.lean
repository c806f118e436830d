import Mathlib.Tactic

/-!
# Python lists

Indexing, insertion and slices of a list as Python documents them: negative
indices count from the end, and bounds of slices are clipped.
-/

set_option autoImplicit false

namespace PythonLists

inductive ListError where
  | indexError
  | valueError
deriving DecidableEq, Repr

variable {α : Type}

/-- An index in range, counted from the start. -/
def position (length : Nat) (index : Int) : Except ListError Nat :=
  let index := if index < 0 then index + length else index
  if 0 ≤ index ∧ index < length then .ok index.toNat else .error .indexError

def getItem (values : List α) (index : Int) : Except ListError α := do
  let k ← position values.length index
  match values[k]? with
  | some value => .ok value
  | none => .error .indexError

def setItem (values : List α) (index : Int) (value : α) : Except ListError (List α) := do
  let k ← position values.length index
  .ok (values.set k value)

def delItem (values : List α) (index : Int) : Except ListError (List α) := do
  let k ← position values.length index
  .ok (values.eraseIdx k)

/-- An index out of range inserts at the nearer end. -/
def insertAt (values : List α) (index : Int) (value : α) : List α :=
  let index := if index < 0 then max (index + values.length) 0 else min index values.length
  values.insertIdx index.toNat value

structure Slice where
  start : Option Int
  stop : Option Int
  step : Option Int
deriving DecidableEq

/-- The value of a bound, clipped. -/
def clip (lower upper length : Int) : Option Int → Int → Int
  | none, default => default
  | some bound, _ => if bound < 0 then max (bound + length) lower else min bound upper

/-- `slice.indices` -/
def Slice.indices (slice : Slice) (length : Nat) : Except ListError (Int × Int × Int) :=
  let step := slice.step.getD 1
  if step = 0 then .error .valueError
  else
    let lower : Int := if step < 0 then -1 else 0
    let upper : Int := if step < 0 then length - 1 else length
    .ok (clip lower upper length slice.start (if step < 0 then upper else lower),
      clip lower upper length slice.stop (if step < 0 then lower else upper), step)

/-- `range` -/
def range (start stop step : Int) : List Int :=
  let count := if 0 < step then (stop - start + step - 1) / step else (start - stop - step - 1) / -step
  (List.range count.toNat).map fun k : Nat => start + k * step

/-- The positions a slice selects, in order. -/
def Slice.positions (slice : Slice) (length : Nat) : Except ListError (List Nat) := do
  let (start, stop, step) ← slice.indices length
  .ok ((range start stop step).map Int.toNat)

def getSlice (values : List α) (slice : Slice) : Except ListError (List α) := do
  let positions ← slice.positions values.length
  .ok (positions.filterMap fun k => values[k]?)

/-- A slice of step one may change the length; any other takes as many values as it selects. -/
def setSlice (values : List α) (slice : Slice) (replacement : List α) : Except ListError (List α) := do
  let (start, stop, step) ← slice.indices values.length
  let positions ← slice.positions values.length
  if step = 1 then
    .ok (values.take start.toNat ++ replacement ++ values.drop (max start stop).toNat)
  else if positions.length ≠ replacement.length then .error .valueError
  else .ok ((positions.zip replacement).foldl (fun values (k, value) => values.set k value) values)

def delSlice (values : List α) (slice : Slice) : Except ListError (List α) := do
  let positions ← slice.positions values.length
  .ok ((values.zipIdx.filter fun entry => entry.2 ∉ positions).map Prod.fst)

/-- `list.pop` -/
def pop (values : List α) (index : Int) : Except ListError (α × List α) := do
  let value ← getItem values index
  let rest ← delItem values index
  .ok (value, rest)

/-! ## The last value -/

theorem position_of_lt {length k : Nat} (inside : k < length) : position length k = .ok k := by
  have counted : ¬ (k : Int) < 0 := by omega
  simp only [position, if_neg counted]
  rw [if_pos (by omega)]
  rfl

theorem position_lt {length k : Nat} {index : Int} (found : position length index = .ok k) :
    k < length := by
  simp only [position] at found
  generalize (if index < 0 then index + (length : Int) else index) = counted at found
  split at found
  · injection found with same
    omega
  · cases found

theorem getItem_of_lt {values : List α} {k : Nat} (inside : k < values.length) :
    getItem values k = .ok (values.get ⟨k, inside⟩) := by
  simp only [getItem, position_of_lt inside]
  change (match values[k]? with | some value => _ | none => _) = _
  rw [List.getElem?_eq_getElem inside]
  rfl

theorem setItem_of_lt {values : List α} {k : Nat} (inside : k < values.length) (value : α) :
    setItem values k value = .ok (values.set k value) := by
  simp only [setItem, position_of_lt inside]
  rfl

theorem position_last (length : Nat) : position (length + 1) (-1) = .ok length := by
  unfold position
  rw [if_pos (by omega), if_pos (by omega)]
  congr 1
  omega

theorem pop_nil : pop ([] : List α) (-1) = .error .indexError := rfl

theorem getItem_last (values : List α) (value : α) : getItem (values ++ [value]) (-1) = .ok value := by
  simp only [getItem, List.length_append, List.length_singleton, position_last]
  change (match (values ++ [value])[values.length]? with | some value => _ | none => _) = _
  rw [List.getElem?_concat_length]

theorem delItem_last (values : List α) (value : α) : delItem (values ++ [value]) (-1) = .ok values := by
  simp only [delItem, List.length_append, List.length_singleton, position_last]
  change Except.ok ((values ++ [value]).eraseIdx values.length) = _
  rw [List.eraseIdx_append_of_length_le le_rfl]
  simp

/-- Where a value can be read it can be deleted. -/
theorem delItem_ok {values : List α} {index : Int} {value : α}
    (found : getItem values index = .ok value) : ∃ rest, delItem values index = .ok rest := by
  unfold getItem at found
  unfold delItem
  cases counted : position values.length index with
  | error error =>
      rw [counted] at found
      cases found
  | ok k => exact ⟨_, rfl⟩

theorem pop_eq_ok {values rest : List α} {index : Int} {value : α}
    (popped : pop values index = .ok (value, rest)) :
    getItem values index = .ok value ∧ delItem values index = .ok rest := by
  unfold pop at popped
  cases found : getItem values index with
  | error error =>
      rw [found] at popped
      cases popped
  | ok read =>
      obtain ⟨left, deleted⟩ := delItem_ok found
      rw [found, deleted] at popped
      cases popped
      exact ⟨rfl, deleted⟩

theorem pop_eq_error {values : List α} {index : Int} {error : ListError}
    (raised : pop values index = .error error) : getItem values index = .error error := by
  unfold pop at raised
  cases found : getItem values index with
  | error other =>
      rw [found] at raised
      cases raised
      rfl
  | ok read =>
      obtain ⟨left, deleted⟩ := delItem_ok found
      rw [found, deleted] at raised
      cases raised

theorem pop_last (values : List α) (value : α) : pop (values ++ [value]) (-1) = .ok (value, values) := by
  simp only [pop, getItem_last, delItem_last]
  rfl

/-! ## The positions of a slice -/

theorem mem_range {start stop step p : Int} (member : p ∈ range start stop step) :
    (0 < step → start ≤ p ∧ p < stop) ∧ (step < 0 → stop < p ∧ p ≤ start) := by
  obtain ⟨k, inside, rfl⟩ := List.mem_map.mp member
  rw [List.mem_range] at inside
  constructor
  · intro up
    rw [if_pos up] at inside
    have steps : (k : Int) + 1 ≤ (stop - start + step - 1) / step := by omega
    have reach := (Int.le_ediv_iff_mul_le up).mp steps
    have forward : 0 ≤ (k : Int) * step := by positivity
    constructor <;> nlinarith
  · intro down
    rw [if_neg (by omega)] at inside
    have up : 0 < -step := by omega
    have steps : (k : Int) + 1 ≤ (start - stop - step - 1) / -step := by omega
    have reach := (Int.le_ediv_iff_mul_le up).mp steps
    have backward : 0 ≤ (k : Int) * -step := by positivity
    constructor <;> nlinarith

theorem clip_mem {lower upper length default : Int} (bound : Option Int) (ordered : lower ≤ upper)
    (low : lower ≤ 0) (high : length ≤ upper + 1) (above : lower ≤ default) (below : default ≤ upper) :
    lower ≤ clip lower upper length bound default ∧ clip lower upper length bound default ≤ upper := by
  cases bound with
  | none => exact ⟨above, below⟩
  | some bound =>
      simp only [clip]
      split <;> omega

/-- A slice selects positions of the list only. -/
theorem Slice.mem_positions {slice : Slice} {length : Nat} {start stop step p : Int}
    (indices : slice.indices length = .ok (start, stop, step)) (member : p ∈ range start stop step) :
    0 ≤ p ∧ p < length := by
  unfold Slice.indices at indices
  simp only at indices
  split at indices
  · cases indices
  injection indices with parts
  simp only [Prod.mk.injEq] at parts
  obtain ⟨rfl, rfl, rfl⟩ := parts
  obtain ⟨forward, backward⟩ := mem_range member
  by_cases down : slice.step.getD 1 < 0
  · simp only [if_pos down] at backward
    obtain ⟨above, below⟩ := backward down
    have first : _ ∧ clip (-1) ((length : Int) - 1) length slice.start ((length : Int) - 1) ≤ _ :=
      clip_mem slice.start (by omega) (by omega) (by omega) (by omega) le_rfl
    have last : -1 ≤ clip (-1) ((length : Int) - 1) length slice.stop (-1) ∧ _ :=
      clip_mem slice.stop (by omega) (by omega) (by omega) le_rfl (by omega)
    omega
  · simp only [if_neg down] at forward
    obtain ⟨above, below⟩ := forward (by omega)
    have first : 0 ≤ clip 0 (length : Int) length slice.start 0 ∧ _ :=
      clip_mem slice.start (by omega) le_rfl (by omega) le_rfl (by omega)
    have last : _ ∧ clip 0 (length : Int) length slice.stop length ≤ _ :=
      clip_mem slice.stop (by omega) le_rfl (by omega) (by omega) le_rfl
    omega

theorem Slice.position_lt {slice : Slice} {length k : Nat} {positions : List Nat}
    (selected : slice.positions length = .ok positions) (member : k ∈ positions) : k < length := by
  unfold Slice.positions at selected
  cases indices : slice.indices length with
  | error error =>
      rw [indices] at selected
      cases selected
  | ok parts =>
      obtain ⟨start, stop, step⟩ := parts
      rw [indices] at selected
      cases selected
      obtain ⟨p, inRange, rfl⟩ := List.mem_map.mp member
      have inside := Slice.mem_positions indices inRange
      omega

/-! ## Reversal in place -/

/-- The value at an index and the one as far from the end change places. -/
def swapEnds (values : List α) (i : Nat) : List α :=
  match values[i]?, values[values.length - i - 1]? with
  | some first, some last => (values.set i last).set (values.length - i - 1) first
  | _, _ => values

theorem swapEnds_of_lt (values : List α) {i : Nat} (inside : i < values.length / 2) :
    ∃ first last, values[i]? = some first ∧ values[values.length - i - 1]? = some last ∧
      swapEnds values i = (values.set i last).set (values.length - i - 1) first := by
  have first : values[i]? = some _ := List.getElem?_eq_getElem (by omega)
  have last : values[values.length - i - 1]? = some _ := List.getElem?_eq_getElem (by omega)
  exact ⟨_, _, first, last, by rw [swapEnds, first, last]⟩

theorem length_swapEnds (values : List α) (i : Nat) : (swapEnds values i).length = values.length := by
  unfold swapEnds
  split <;> simp

/-- After so many swaps the outer values are reversed and the others are as they were. -/
theorem foldl_swapEnds (values : List α) {swaps : Nat} (half : swaps ≤ values.length / 2) :
    ((List.range swaps).foldl swapEnds values).length = values.length ∧
      ∀ j < values.length, ((List.range swaps).foldl swapEnds values)[j]? =
        if j < swaps ∨ values.length ≤ j + swaps then values[values.length - 1 - j]? else values[j]? := by
  induction swaps with
  | zero =>
      refine ⟨rfl, fun j inside => ?_⟩
      rw [if_neg (by omega)]
      rfl
  | succ swaps ih =>
      obtain ⟨length, entries⟩ := ih (by omega)
      rw [List.range_succ, List.foldl_append, List.foldl_cons, List.foldl_nil]
      generalize (List.range swaps).foldl swapEnds values = swapped at length entries ⊢
      obtain ⟨first, last, firstAt, lastAt, swap⟩ :=
        swapEnds_of_lt swapped (i := swaps) (by omega)
      refine ⟨(length_swapEnds swapped swaps).trans length, fun j inside => ?_⟩
      rw [entries swaps (by omega), if_neg (by omega)] at firstAt
      rw [length, entries _ (by omega), if_neg (by omega)] at lastAt
      rw [swap, length, List.getElem?_set, List.getElem?_set]
      by_cases atLast : values.length - swaps - 1 = j
      · rw [if_pos atLast, if_pos (by simp; omega), if_pos (by omega), ← firstAt]
        congr 1
        omega
      · rw [if_neg atLast]
        by_cases atFirst : swaps = j
        · rw [if_pos atFirst, if_pos (by omega), if_pos (by omega), ← lastAt]
          congr 1
          omega
        · rw [if_neg atFirst, entries j inside]
          congr 1
          rw [eq_iff_iff]
          omega

theorem foldl_swapEnds_eq_reverse (values : List α) :
    (List.range (values.length / 2)).foldl swapEnds values = values.reverse := by
  obtain ⟨length, entries⟩ := foldl_swapEnds values le_rfl
  apply List.ext_getElem?
  intro j
  rcases Nat.lt_or_ge j values.length with inside | outside
  · rw [entries j inside, List.getElem?_reverse inside]
    split
    · rfl
    · -- the value in the middle
      congr 1
      omega
  · rw [List.getElem?_eq_none (by omega), List.getElem?_eq_none (by simpa using outside)]

end PythonLists
