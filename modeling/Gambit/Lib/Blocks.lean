import Mathlib.Tactic

/-!
# Blocks of memory

A block is the list of its cells.  Every access is checked against the block's
length, and one outside it has no result.  The lemmas are about a block laid
out as `front ++ part ++ back`.
-/

set_option autoImplicit false

namespace Blocks

variable {α : Type}

def load (block : List α) (i : Nat) : Option α := block[i]?

def store (block : List α) (i : Nat) (cell : α) : Option (List α) :=
  if i < block.length then some (block.set i cell) else none

/-- Moves `count` cells from `start` to the beginning; the ranges may overlap. -/
def moveDown (block : List α) (start count : Nat) : Option (List α) :=
  if start + count ≤ block.length then
    some ((block.drop start).take count ++ block.drop count)
  else none

/-- Writes cells from `start` on, on behalf of a writer that was told of `room` cells. -/
def writeAt (block : List α) (start room : Nat) (cells : List α) : Option (List α) :=
  if start + room ≤ block.length ∧ cells.length ≤ room then
    some (block.take start ++ cells ++ block.drop (start + cells.length))
  else none

/-- The block at another length; cells it did not have before hold anything. -/
def resize (fresh : Nat → α) (block : List α) (size : Nat) : List α :=
  block.take size ++ (List.range' block.length (size - block.length)).map fresh

variable {front part back cells : List α} {cell : α} {i start count room size : Nat}

theorem load_part (inside : i < part.length) :
    load (front ++ part ++ back) (front.length + i) = part[i]? := by
  rw [load, List.append_assoc, List.getElem?_append_right (Nat.le_add_right _ _),
    Nat.add_sub_cancel_left, List.getElem?_append_left inside]

theorem store_here (old : α) :
    store (front ++ old :: back) front.length cell = some (front ++ cell :: back) := by
  rw [store, if_pos (by simp), List.set_append_right _ _ (Nat.le_refl _), Nat.sub_self,
    List.set_cons_zero]

theorem moveDown_part (front part back : List α) :
    ∃ rest, moveDown (front ++ part ++ back) front.length part.length = some (part ++ rest) := by
  have fits : front.length + part.length ≤ (front ++ part ++ back).length := by
    simp only [List.length_append]
    omega
  refine ⟨(front ++ part ++ back).drop part.length, ?_⟩
  rw [moveDown, if_pos fits, List.append_assoc, List.drop_left, List.take_left]

theorem length_resize (fresh : Nat → α) (block : List α) (size : Nat) :
    (resize fresh block size).length = size := by
  rw [resize, List.length_append, List.length_take, List.length_map, List.length_range']
  omega

theorem resize_keeps (fresh : Nat → α) (part back : List α) (fits : part.length ≤ size) :
    ∃ rest, resize fresh (part ++ back) size = part ++ rest ∧
      rest.length = size - part.length := by
  refine ⟨back.take (size - part.length) ++
    (List.range' (part ++ back).length (size - (part ++ back).length)).map fresh, ?_, ?_⟩
  · rw [resize, List.take_append, List.take_of_length_le fits, List.append_assoc]
  · have whole := length_resize fresh (part ++ back) size
    rw [resize, List.take_append, List.take_of_length_le fits, List.append_assoc,
      List.length_append] at whole
    omega

theorem writeAt_part (part : List α) (enough : room ≤ back.length) (fits : cells.length ≤ room) :
    ∃ rest, writeAt (part ++ back) part.length room cells = some (part ++ cells ++ rest) ∧
      rest.length = back.length - cells.length := by
  have within : part.length + room ≤ (part ++ back).length := by
    rw [List.length_append]
    omega
  refine ⟨back.drop cells.length, ?_, by rw [List.length_drop]⟩
  rw [writeAt, if_pos ⟨within, fits⟩, List.take_left, ← List.drop_drop, List.drop_left]

end Blocks
