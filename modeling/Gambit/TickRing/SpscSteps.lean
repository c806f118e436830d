import Gambit.TickRing.SpscRing

/-!
# What the steps of the ring keep

`Sound` is the invariant of the memory.  Every operation keeps it from values
that fit the memory; a step of the producer changes the memory only as
`Produced` says, a step of the consumer only as `Consumed` says, and what one
side has loaded fits the memory after any step of the other side.
-/

set_option autoImplicit false

open CircularWindow

namespace Gambit

theorem Capacity.isPowerOfTwo (capacity : Capacity) : capacity.value.toNat.isPowerOfTwo :=
  isPowerOfTwo_of_and_sub_one capacity.atLeastTwo capacity.powerOfTwo

theorem Capacity.two_le (capacity : Capacity) : 2 ≤ capacity.value.toNat :=
  UInt64.le_iff_toNat_le.mp capacity.atLeastTwo

theorem checkedCapacity_ok {maxSize requested : UInt64} {capacity : Capacity}
    (run : checkedCapacity maxSize requested = .ok capacity) : capacity.value = requested := by
  unfold checkedCapacity at run
  split at run
  · cases run
  · cases run
    rfl

namespace SpscRing

variable {Record : Type} {ring ring' : SpscRing Record}

structure Sound (ring : SpscRing Record) : Prop where
  length : ring.slots.length = ring.capacity.value.toNat
  head : ring.head = UInt64.ofNat ring.published.length
  tail : ring.tail = UInt64.ofNat ring.consumed.length
  ordered : ring.consumed.length ≤ ring.published.length
  bounded : ring.published.length ≤ ring.consumed.length + ring.capacity.value.toNat
  fifo : ring.consumed = ring.published.take ring.consumed.length
  window : Window ring.slots ring.published ring.consumed.length

/-- What a step of the producer may change. -/
structure Produced (ring ring' : SpscRing Record) : Prop where
  capacity : ring'.capacity = ring.capacity
  tail : ring'.tail = ring.tail
  consumed : ring'.consumed = ring.consumed
  published : ring.published <+: ring'.published
  kept : ∀ n, ring.consumed.length ≤ n → n < ring.published.length →
    ring'.slots[n % ring.slots.length]? = ring.slots[n % ring.slots.length]?

/-- What a step of the consumer may change. -/
structure Consumed (ring ring' : SpscRing Record) : Prop where
  capacity : ring'.capacity = ring.capacity
  slots : ring'.slots = ring.slots
  head : ring'.head = ring.head
  published : ring'.published = ring.published
  consumed : ring.consumed <+: ring'.consumed

theorem Produced.refl (ring : SpscRing Record) : Produced ring ring :=
  ⟨rfl, rfl, rfl, List.prefix_rfl, fun _ _ _ => rfl⟩

theorem Consumed.refl (ring : SpscRing Record) : Consumed ring ring :=
  ⟨rfl, rfl, rfl, rfl, List.prefix_rfl⟩

theorem new_sound [Inhabited Record] {maxSize requested : UInt64}
    (run : new maxSize requested = .ok ring) :
    ring.Sound ∧ ring.capacity.value = requested ∧ ring.published = [] ∧ ring.consumed = [] := by
  unfold new at run
  cases checked : checkedCapacity maxSize requested with
  | error error =>
      rw [checked] at run
      cases run
  | ok capacity =>
      rw [checked] at run
      cases run
      have size := checkedCapacity_ok checked
      refine ⟨⟨?_, rfl, rfl, ?_, ?_, rfl, ?_⟩, size, rfl, rfl⟩
      · exact List.length_replicate
      · exact Nat.le_refl 0
      · exact Nat.zero_le _
      · intro n _ below
        cases below

namespace Sound

theorem near (sound : ring.Sound) :
    ring.published.length - ring.consumed.length < 2 ^ 64 := by
  have bounded := sound.bounded
  have small := ring.capacity.value.toNat_lt
  omega

theorem toNat_depth (sound : ring.Sound) :
    (ring.head - ring.tail).toNat = ring.published.length - ring.consumed.length := by
  rw [sound.head, sound.tail]
  exact toNat_ofNat_sub_ofNat sound.ordered sound.near

theorem depth_le (sound : ring.Sound) : ring.head - ring.tail ≤ ring.capacity.value := by
  apply UInt64.le_iff_toNat_le.mpr
  rw [sound.toNat_depth]
  have bounded := sound.bounded
  omega

theorem full_iff (sound : ring.Sound) :
    ring.head - ring.tail = ring.capacity.value ↔
      ring.published.length = ring.consumed.length + ring.capacity.value.toNat := by
  rw [← UInt64.toNat_inj, sound.toNat_depth]
  have ordered := sound.ordered
  have large := ring.capacity.two_le
  omega

theorem empty_iff (sound : ring.Sound) :
    ring.tail = ring.head ↔ ring.published.length = ring.consumed.length := by
  rw [sound.head, sound.tail]
  exact eq_comm.trans (ofNat_eq_ofNat_iff sound.ordered sound.near)

theorem toNat_masked (sound : ring.Sound) (n : Nat) :
    (UInt64.ofNat n &&& ring.mask).toNat = n % ring.slots.length := by
  rw [sound.length]
  exact toNat_mask ring.capacity.isPowerOfTwo

/-- A slot that the window covers is read as it was published. -/
theorem readSlot_eq [Inhabited Record] (sound : ring.Sound) {n : Nat}
    (above : ring.consumed.length ≤ n) (below : n < ring.published.length) :
    ring.published[n]? = some (ring.readSlot (UInt64.ofNat n)) := by
  unfold readSlot
  rw [sound.toNat_masked, List.getD_eq_getElem?_getD, sound.window n above below,
    List.getElem?_eq_getElem below]
  rfl

theorem view_tail (sound : ring.Sound) {count : UInt64}
    (available : ring.consumed.length + count.toNat ≤ ring.published.length)
    (contiguous : ring.consumed.length % ring.capacity.value.toNat + count.toNat ≤
      ring.capacity.value.toNat) :
    ring.view ⟨some (ring.tail &&& ring.mask), count⟩ =
      (ring.published.drop ring.consumed.length).take count.toNat := by
  unfold view
  rw [sound.tail]
  simp only
  rw [sound.toNat_masked]
  rw [← sound.length] at contiguous
  exact sound.window.take_drop (Nat.le_refl _) available contiguous

/-! ## The memory after a store -/

/-- Writing the slot after the window. -/
theorem writeSlot (sound : ring.Sound) (record : Record)
    (room : ring.published.length < ring.consumed.length + ring.capacity.value.toNat) :
    (ring.writeSlot ring.head record).Sound ∧ Produced ring (ring.writeSlot ring.head record) ∧
      (ring.writeSlot ring.head record).slots[ring.published.length % ring.slots.length]? =
        some record := by
  have place : (ring.head &&& ring.mask).toNat = ring.published.length % ring.slots.length := by
    rw [sound.head, sound.toNat_masked]
  have free : ring.published.length < ring.consumed.length + ring.slots.length := by
    rw [sound.length]
    exact room
  have positive : 0 < ring.slots.length := by
    have large := ring.capacity.two_le
    rw [sound.length]
    omega
  unfold SpscRing.writeSlot
  rw [place]
  refine ⟨?_, ?_, ?_⟩
  · exact {
      length := List.length_set.trans sound.length
      head := sound.head
      tail := sound.tail
      ordered := sound.ordered
      bounded := sound.bounded
      fifo := sound.fifo
      window := sound.window.set record free }
  · exact ⟨rfl, rfl, rfl, List.prefix_rfl, fun n above below =>
      getElem?_set_of_window free above below⟩
  · exact List.getElem?_set_self (Nat.mod_lt _ positive)

/-- Publishing the slot after the window. -/
theorem storeHead (sound : ring.Sound) {record : Record}
    (room : ring.published.length < ring.consumed.length + ring.capacity.value.toNat)
    (written : ring.slots[ring.published.length % ring.slots.length]? = some record) :
    (ring.storeHead (ring.head + 1) record).Sound ∧
      Produced ring (ring.storeHead (ring.head + 1) record) := by
  have ordered := sound.ordered
  refine ⟨?_, ?_⟩
  · exact {
      length := sound.length
      head := by
        change ring.head + 1 = UInt64.ofNat (ring.published ++ [record]).length
        rw [List.length_append, UInt64.ofNat_add, sound.head]
        rfl
      tail := sound.tail
      ordered := by
        change ring.consumed.length ≤ (ring.published ++ [record]).length
        rw [List.length_append]
        omega
      bounded := by
        change (ring.published ++ [record]).length ≤ _
        rw [List.length_append]
        exact room
      fifo := by
        change ring.consumed = (ring.published ++ [record]).take ring.consumed.length
        rw [List.take_append_of_le_length ordered]
        exact sound.fifo
      window := sound.window.append written }
  · exact ⟨rfl, rfl, rfl, List.prefix_append _ _, fun _ _ _ => rfl⟩

/-- Giving back the slots of the next records. -/
theorem storeTail (sound : ring.Sound) {count : UInt64} {records : List Record}
    (available : ring.consumed.length + count.toNat ≤ ring.published.length)
    (read : records = (ring.published.drop ring.consumed.length).take count.toNat) :
    (ring.storeTail (ring.tail + count) records).Sound ∧
      Consumed ring (ring.storeTail (ring.tail + count) records) := by
  have length : records.length = count.toNat := by
    rw [read, List.length_take, List.length_drop]
    omega
  have bounded := sound.bounded
  have total : (ring.consumed ++ records).length = ring.consumed.length + count.toNat := by
    rw [List.length_append, length]
  refine ⟨?_, ⟨rfl, rfl, rfl, rfl, List.prefix_append _ _⟩⟩
  exact {
    length := sound.length
    head := sound.head
    tail := by
      change ring.tail + count = UInt64.ofNat (ring.consumed ++ records).length
      rw [total, UInt64.ofNat_add, sound.tail, UInt64.ofNat_toNat]
    ordered := by
      change (ring.consumed ++ records).length ≤ ring.published.length
      rw [total]
      exact available
    bounded := by
      change ring.published.length ≤ (ring.consumed ++ records).length + _
      rw [total]
      change _ ≤ _ + ring.capacity.value.toNat
      omega
    fifo := by
      change ring.consumed ++ records = ring.published.take (ring.consumed ++ records).length
      rw [total, ← take_append_take_drop, ← sound.fifo, read]
    window := by
      change Window ring.slots ring.published (ring.consumed ++ records).length
      rw [total]
      exact sound.window.mono (Nat.le_add_right _ _) }

end Sound

end SpscRing

end Gambit
