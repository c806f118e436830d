import Mathlib.Data.UInt
import Mathlib.Tactic.Common

/-!
# Windows over circular buffers

Positions of a stream are counted by wrapping 64-bit cursors and stored in a
buffer whose length is a power of two.  A window is the part of the stream that
the buffer holds; it survives writing the position after it, publishing that
position, and dropping positions at its low end.
-/

set_option autoImplicit false

namespace CircularWindow

section Cursors

variable {low high position : Nat} {capacity : UInt64}

/-- Two cursors less than `2 ^ 64` apart have their distance as difference. -/
theorem toNat_ofNat_sub_ofNat (ordered : low ≤ high) (near : high - low < 2 ^ 64) :
    (UInt64.ofNat high - UInt64.ofNat low).toNat = high - low := by
  rw [← UInt64.ofNat_sub ordered]
  exact UInt64.toNat_ofNat_of_lt' near

/-- A cursor that is behind the other one: the difference wraps. -/
theorem toNat_ofNat_sub_ofNat_of_behind (behind : low < high) (near : high - low ≤ 2 ^ 64) :
    (UInt64.ofNat low - UInt64.ofNat high).toNat = 2 ^ 64 - (high - low) := by
  rw [UInt64.toNat_sub, UInt64.toNat_ofNat', UInt64.toNat_ofNat']
  omega

theorem ofNat_eq_ofNat_iff (ordered : low ≤ high) (near : high - low < 2 ^ 64) :
    UInt64.ofNat high = UInt64.ofNat low ↔ high = low := by
  constructor
  · intro same
    have distance := toNat_ofNat_sub_ofNat ordered near
    rw [same, UInt64.sub_self] at distance
    have none : (0 : UInt64).toNat = 0 := rfl
    omega
  · intro same
    rw [same]

/-- The constructor's test for a power of two. -/
theorem isPowerOfTwo_of_and_sub_one (atLeastTwo : 2 ≤ capacity)
    (masked : capacity &&& (capacity - 1) = 0) : capacity.toNat.isPowerOfTwo := by
  have large : 2 ≤ capacity.toNat := UInt64.le_iff_toNat_le.mp atLeastTwo
  have positive : capacity.toNat ≠ 0 := by omega
  have ordered : (1 : UInt64) ≤ capacity :=
    UInt64.le_iff_toNat_le.mpr (Nat.one_le_iff_ne_zero.mpr positive)
  apply (Nat.and_sub_one_eq_zero_iff_isPowerOfTwo positive).mp
  have bits := congrArg UInt64.toNat masked
  rw [UInt64.toNat_and, UInt64.toNat_sub_of_le _ _ ordered] at bits
  exact bits

/-- Masking a wrapped cursor finds the slot of its position. -/
theorem toNat_mask (power : capacity.toNat.isPowerOfTwo) :
    (UInt64.ofNat position &&& (capacity - 1)).toNat = position % capacity.toNat := by
  obtain ⟨k, size⟩ := power
  have bounded : capacity.toNat < 2 ^ 64 := capacity.toNat_lt
  have positive : 1 ≤ capacity.toNat := by
    rw [size]
    exact Nat.one_le_two_pow
  have small : k ≤ 64 := by
    rw [size] at bounded
    exact ((Nat.pow_lt_pow_iff_right (by decide)).mp bounded).le
  have ordered : (1 : UInt64) ≤ capacity := UInt64.le_iff_toNat_le.mpr positive
  rw [UInt64.toNat_and, UInt64.toNat_sub_of_le _ _ ordered, UInt64.toNat_ofNat', size]
  change _ &&& (2 ^ k - 1) = _
  rw [Nat.and_two_pow_sub_one_eq_mod]
  exact Nat.mod_mod_of_dvd position (Nat.pow_dvd_pow 2 small)

end Cursors

section Windows

variable {α : Type} {slots stream : List α} {low : Nat}

/-- The positions of the stream from `low` on are in their slots. -/
def Window (slots stream : List α) (low : Nat) : Prop :=
  ∀ n, low ≤ n → n < stream.length → slots[n % slots.length]? = stream[n]?

/-- Positions closer than the length of the buffer have different slots. -/
theorem mod_ne_mod_of_near {a b length : Nat} (before : a < b) (near : b < a + length) :
    a % length ≠ b % length := by
  intro same
  have divides : length ∣ b - a := (Nat.modEq_iff_dvd' before.le).mp same
  have reaches : length ≤ b - a := Nat.le_of_dvd (by omega) divides
  omega

/-- Writing the position after a window that is not full keeps every slot of
the window. -/
theorem getElem?_set_of_window {n : Nat} {x : α} (room : stream.length < low + slots.length)
    (above : low ≤ n) (below : n < stream.length) :
    (slots.set (stream.length % slots.length) x)[n % slots.length]? =
      slots[n % slots.length]? := by
  apply List.getElem?_set_ne
  exact (mod_ne_mod_of_near below (by omega)).symm

theorem Window.set (window : Window slots stream low) (x : α)
    (room : stream.length < low + slots.length) :
    Window (slots.set (stream.length % slots.length) x) stream low := by
  intro n above below
  rw [List.length_set, getElem?_set_of_window room above below]
  exact window n above below

theorem Window.append (window : Window slots stream low) {x : α}
    (written : slots[stream.length % slots.length]? = some x) :
    Window slots (stream ++ [x]) low := by
  intro n above below
  rw [List.length_append, List.length_singleton] at below
  by_cases inside : n < stream.length
  · rw [window n above inside, List.getElem?_append_left inside]
  · have last : n = stream.length := by omega
    subst last
    rw [written, List.getElem?_concat_length]

theorem Window.mono (window : Window slots stream low) {high : Nat} (le : low ≤ high) :
    Window slots stream high :=
  fun n above below => window n (le.trans above) below

/-- A part of the window that does not cross the end of the buffer is a
contiguous part of it. -/
theorem Window.take_drop (window : Window slots stream low) {start count : Nat}
    (above : low ≤ start) (below : start + count ≤ stream.length)
    (contiguous : start % slots.length + count ≤ slots.length) :
    (slots.drop (start % slots.length)).take count = (stream.drop start).take count := by
  apply List.ext_getElem?
  intro i
  by_cases inside : i < count
  · have place : (start + i) % slots.length = start % slots.length + i := by
      rw [← Nat.mod_add_mod, Nat.mod_eq_of_lt (by omega)]
    rw [List.getElem?_take_of_lt inside, List.getElem?_take_of_lt inside, List.getElem?_drop,
      List.getElem?_drop, ← window (start + i) (by omega) (by omega), place]
  · rw [List.getElem?_take_eq_none (by omega), List.getElem?_take_eq_none (by omega)]

end Windows

section Streams

variable {α : Type} {stream : List α} {taken count : Nat}

/-- Taking on from where a prefix ends. -/
theorem take_append_take_drop (stream : List α) (taken count : Nat) :
    stream.take taken ++ (stream.drop taken).take count = stream.take (taken + count) :=
  List.take_add.symm

end Streams

end CircularWindow
