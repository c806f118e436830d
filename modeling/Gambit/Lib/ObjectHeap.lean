import Mathlib.Algebra.Order.Group.Nat

/-!
# Mutable objects by address

Objects of one kind live at addresses below the allocation frontier.  What an
operation may not touch is stated by a bound: everything below it still reads
as before.
-/

set_option autoImplicit false

structure ObjectHeap (α : Type) where
  read : Nat → α
  next : Nat

namespace ObjectHeap

variable {α : Type}

def alloc (heap : ObjectHeap α) (content : α) : Nat × ObjectHeap α :=
  (heap.next, ⟨Function.update heap.read heap.next content, heap.next + 1⟩)

def modify (heap : ObjectHeap α) (address : Nat) (f : α → α) : ObjectHeap α :=
  { heap with read := Function.update heap.read address (f (heap.read address)) }

@[simp] theorem alloc_address (heap : ObjectHeap α) (content : α) :
    (heap.alloc content).1 = heap.next := rfl

@[simp] theorem alloc_next (heap : ObjectHeap α) (content : α) :
    (heap.alloc content).2.next = heap.next + 1 := rfl

@[simp] theorem alloc_read_new (heap : ObjectHeap α) (content : α) :
    (heap.alloc content).2.read heap.next = content := by
  simp [alloc]

theorem alloc_read {heap : ObjectHeap α} {address : Nat} (content : α) (old : address ≠ heap.next) :
    (heap.alloc content).2.read address = heap.read address := by
  simp [alloc, old]

@[simp] theorem modify_next (heap : ObjectHeap α) (address : Nat) (f : α → α) :
    (heap.modify address f).next = heap.next := rfl

@[simp] theorem modify_read_self (heap : ObjectHeap α) (address : Nat) (f : α → α) :
    (heap.modify address f).read address = f (heap.read address) := by
  simp [modify]

theorem modify_read {heap : ObjectHeap α} {address other : Nat} (f : α → α)
    (elsewhere : other ≠ address) : (heap.modify address f).read other = heap.read other := by
  simp [modify, elsewhere]

/-- No object below `bound` differs, and none has been freed. -/
structure KeepsBelow (bound : Nat) (before after : ObjectHeap α) : Prop where
  read : ∀ address < bound, after.read address = before.read address
  grows : before.next ≤ after.next

theorem KeepsBelow.refl (bound : Nat) (heap : ObjectHeap α) : KeepsBelow bound heap heap :=
  ⟨fun _ _ => rfl, le_rfl⟩

theorem KeepsBelow.trans {bound : Nat} {a b c : ObjectHeap α} (h : KeepsBelow bound a b)
    (h' : KeepsBelow bound b c) : KeepsBelow bound a c :=
  ⟨fun address below => (h'.read address below).trans (h.read address below), h.grows.trans h'.grows⟩

theorem KeepsBelow.mono {bound lower : Nat} {a b : ObjectHeap α} (h : KeepsBelow bound a b)
    (le : lower ≤ bound) : KeepsBelow lower a b :=
  ⟨fun address below => h.read address (below.trans_le le), h.grows⟩

theorem keepsBelow_alloc (heap : ObjectHeap α) (content : α) :
    KeepsBelow heap.next heap (heap.alloc content).2 :=
  ⟨fun _ below => alloc_read content below.ne, Nat.le_succ _⟩

theorem keepsBelow_modify {heap : ObjectHeap α} {address bound : Nat} (f : α → α)
    (above : bound ≤ address) : KeepsBelow bound heap (heap.modify address f) :=
  ⟨fun _ below => modify_read f (below.trans_le above).ne, le_rfl⟩

end ObjectHeap
