import Gambit.TickRing.SpscSteps

/-!
# The operations over a sound ring

What an operation has loaded so far fits the ring: a cursor of one's own is
current, a cursor of the other side is outdated in the harmless direction only.
For each operation: a step keeps the ring sound and the operation fitting, and
the steps of the other side do not disturb it.
-/

set_option autoImplicit false

open CircularWindow

namespace Gambit

namespace SpscRing

variable {Record : Type} {ring ring' : SpscRing Record}

/-! ## The producer -/

def TryPush.Fits (ring : SpscRing Record) : TryPush Record → Prop
  | .loadHead _ => True
  | .loadTail _ head => head = ring.head
  | .writeSlot _ head =>
      head = ring.head ∧
        ring.published.length < ring.consumed.length + ring.capacity.value.toNat
  | .storeHead record head =>
      head = ring.head ∧
        ring.published.length < ring.consumed.length + ring.capacity.value.toNat ∧
        ring.slots[ring.published.length % ring.slots.length]? = some record
  | .returned _ => True

theorem TryPush.step_fits {op op' : TryPush Record} (sound : ring.Sound) (fits : op.Fits ring)
    (run : op.step ring = some (ring', op')) :
    ring'.Sound ∧ op'.Fits ring' ∧ Produced ring ring' := by
  cases op with
  | loadHead record =>
      cases run
      exact ⟨sound, rfl, .refl ring⟩
  | loadTail record head =>
      cases fits
      simp only [TryPush.step] at run
      split at run
      · cases run
        exact ⟨sound, trivial, .refl ring⟩
      · next free =>
          cases run
          have bounded := sound.bounded
          have room := mt sound.full_iff.mpr free
          exact ⟨sound, ⟨rfl, by omega⟩, .refl ring⟩
  | writeSlot record head =>
      obtain ⟨rfl, room⟩ := fits
      cases run
      obtain ⟨soundAfter, produced, written⟩ := sound.writeSlot record room
      refine ⟨soundAfter, ⟨rfl, room, ?_⟩, produced⟩
      simp only [SpscRing.writeSlot, List.length_set] at written ⊢
      exact written
  | storeHead record head =>
      obtain ⟨rfl, room, written⟩ := fits
      cases run
      obtain ⟨soundAfter, produced⟩ := sound.storeHead room written
      exact ⟨soundAfter, trivial, produced⟩
  | returned pushed => cases run

theorem TryPush.Fits.stable {op : TryPush Record} (fits : op.Fits ring)
    (consumed : Consumed ring ring') : op.Fits ring' := by
  have further := consumed.consumed.length_le
  cases op with
  | loadHead record => trivial
  | loadTail record head => exact fits.trans consumed.head.symm
  | writeSlot record head =>
      obtain ⟨current, room⟩ := fits
      refine ⟨current.trans consumed.head.symm, ?_⟩
      rw [consumed.published, consumed.capacity]
      omega
  | storeHead record head =>
      obtain ⟨current, room, written⟩ := fits
      refine ⟨current.trans consumed.head.symm, ?_, ?_⟩
      · rw [consumed.published, consumed.capacity]
        omega
      · rw [consumed.published, consumed.slots]
        exact written
  | returned pushed => trivial

/-- A push is refused at the load of the tail, and only from a full ring. -/
theorem TryPush.full_of_refused {op : TryPush Record} (sound : ring.Sound) (fits : op.Fits ring)
    (run : op.step ring = some (ring', .returned false)) :
    ring' = ring ∧ ring.head - ring.tail = ring.capacity.value ∧
      ring.published.length = ring.consumed.length + ring.capacity.value.toNat := by
  cases op with
  | loadTail record head =>
      cases fits
      simp only [TryPush.step] at run
      split at run
      · next full =>
          cases run
          exact ⟨rfl, full, sound.full_iff.mp full⟩
      · cases run
  | loadHead record => cases run
  | writeSlot record head => cases run
  | storeHead record head => cases run
  | returned pushed => cases run

/-- The records whose push has reported success grow by the record pushed, in
the step that reports it. -/
theorem TryPush.published_of_step {op op' : TryPush Record}
    (run : op.step ring = some (ring', op')) :
    (∃ record head, op = .storeHead record head ∧ op' = .returned true ∧
        ring'.published = ring.published ++ [record]) ∨
      op' ≠ .returned true ∧ ring'.published = ring.published := by
  cases op with
  | loadTail record head =>
      simp only [TryPush.step] at run
      split at run
      · cases run
        exact .inr ⟨nofun, rfl⟩
      · cases run
        exact .inr ⟨nofun, rfl⟩
  | loadHead record =>
      cases run
      exact .inr ⟨nofun, rfl⟩
  | writeSlot record head =>
      cases run
      exact .inr ⟨nofun, rfl⟩
  | storeHead record head =>
      cases run
      exact .inl ⟨record, head, rfl, rfl, rfl⟩
  | returned pushed => cases run

/-! ## The consumer -/

/-- The records that the next consumption of `count` takes. -/
def next (ring : SpscRing Record) (count : Nat) : List Record :=
  (ring.published.drop ring.consumed.length).take count

theorem length_next {count : Nat}
    (available : ring.consumed.length + count ≤ ring.published.length) :
    (ring.next count).length = count := by
  unfold next
  rw [List.length_take, List.length_drop]
  omega

theorem next_one [Inhabited Record] (sound : ring.Sound) {read : List Record} {count : Nat}
    (sofar : read = ring.next read.length) (unread : read.length < count)
    (available : ring.consumed.length + count ≤ ring.published.length) :
    read ++ [ring.readSlot (ring.tail + UInt64.ofNat read.length)] =
      ring.next (read.length + 1) := by
  have slot := sound.readSlot_eq (n := ring.consumed.length + read.length) (by omega) (by omega)
  rw [UInt64.ofNat_add, ← sound.tail, ← List.getElem?_drop] at slot
  unfold next at sofar ⊢
  rw [List.take_add_one, slot, ← sofar]
  rfl

theorem consumed_append_next (sound : ring.Sound) (count : Nat) :
    ring.consumed ++ ring.next count = ring.published.take (ring.consumed.length + count) := by
  unfold next
  rw [← take_append_take_drop, ← sound.fifo]

/-- What is next stays next under pushes. -/
theorem Produced.next (produced : Produced ring ring') {count : Nat}
    (available : ring.consumed.length + count ≤ ring.published.length) :
    ring'.next count = ring.next count := by
  obtain ⟨more, extended⟩ := produced.published
  unfold SpscRing.next
  rw [produced.consumed, ← extended, List.drop_append_of_le_length (by omega),
    List.take_append_of_le_length (by rw [List.length_drop]; omega)]

theorem Produced.available (produced : Produced ring ring') {count : Nat}
    (available : ring.consumed.length + count ≤ ring.published.length) :
    ring'.consumed.length + count ≤ ring'.published.length := by
  have longer := produced.published.length_le
  rw [produced.consumed]
  omega

/-- A slot that is read by the next store of the tail. -/
def TryPop.Fits (ring : SpscRing Record) : TryPop Record → Prop
  | .loadTail => True
  | .loadHead tail => tail = ring.tail
  | .readSlot tail => tail = ring.tail ∧ ring.consumed.length + 1 ≤ ring.published.length
  | .storeTail tail record =>
      tail = ring.tail ∧ ring.consumed.length + 1 ≤ ring.published.length ∧
        [record] = ring.next 1
  | .returned _ => True

theorem TryPop.step_fits [Inhabited Record] {op op' : TryPop Record} (sound : ring.Sound)
    (fits : op.Fits ring) (run : op.step ring = some (ring', op')) :
    ring'.Sound ∧ op'.Fits ring' ∧ Consumed ring ring' := by
  cases op with
  | loadTail =>
      cases run
      exact ⟨sound, rfl, .refl ring⟩
  | loadHead tail =>
      cases fits
      simp only [TryPop.step] at run
      split at run
      · cases run
        exact ⟨sound, trivial, .refl ring⟩
      · next nonempty =>
          cases run
          have ordered := sound.ordered
          have different := mt sound.empty_iff.mpr nonempty
          exact ⟨sound, ⟨rfl, by omega⟩, .refl ring⟩
  | readSlot tail =>
      obtain ⟨rfl, available⟩ := fits
      cases run
      have read := @next_one _ _ _ sound [] 1 rfl Nat.one_pos available
      have first : UInt64.ofNat ([] : List Record).length = 0 := rfl
      rw [first, UInt64.add_zero] at read
      exact ⟨sound, ⟨rfl, available, read⟩, .refl ring⟩
  | storeTail tail record =>
      obtain ⟨rfl, available, read⟩ := fits
      cases run
      obtain ⟨soundAfter, consumed⟩ := @Sound.storeTail _ _ sound 1 _ available read
      exact ⟨soundAfter, trivial, consumed⟩
  | returned record => cases run

theorem TryPop.Fits.stable {op : TryPop Record} (fits : op.Fits ring)
    (produced : Produced ring ring') : op.Fits ring' := by
  cases op with
  | loadTail => trivial
  | loadHead tail => exact fits.trans produced.tail.symm
  | readSlot tail => exact ⟨fits.1.trans produced.tail.symm, produced.available fits.2⟩
  | storeTail tail record =>
      obtain ⟨current, available, read⟩ := fits
      refine ⟨current.trans produced.tail.symm, produced.available available, ?_⟩
      rw [produced.next available]
      exact read
  | returned record => trivial

def Consume.Fits (ring : SpscRing Record) : Consume Record → Prop
  | .loadTail _ => True
  | .loadHead _ tail => tail = ring.tail
  | .readSlots tail count read =>
      tail = ring.tail ∧ ring.consumed.length + count.toNat ≤ ring.published.length ∧
        read.length < count.toNat ∧ read = ring.next read.length
  | .storeTail tail count read =>
      tail = ring.tail ∧ ring.consumed.length + count.toNat ≤ ring.published.length ∧
        read = ring.next count.toNat
  | .returned _ => True

/-- The head of the loop, from what has been read so far. -/
theorem Consume.loop_fits {count : UInt64} {read : List Record}
    (available : ring.consumed.length + count.toNat ≤ ring.published.length)
    (within : read.length ≤ count.toNat) (sofar : read = ring.next read.length) :
    (Consume.loop ring.tail count read).Fits ring := by
  unfold loop
  by_cases unread : read.length < count.toNat
  · rw [if_pos unread]
    exact ⟨rfl, available, unread, sofar⟩
  · rw [if_neg unread]
    have whole : read.length = count.toNat := by omega
    rw [whole] at sofar
    exact ⟨rfl, available, sofar⟩

/-- The smaller of two counts does not exceed either. -/
theorem toNat_ite_lt (a b : UInt64) : (if a < b then a else b).toNat = min a.toNat b.toNat := by
  by_cases less : a < b
  · rw [if_pos less, Nat.min_eq_left (UInt64.lt_iff_toNat_lt.mp less).le]
  · have le := UInt64.le_iff_toNat_le.mp (UInt64.not_lt.mp less)
    rw [if_neg less, Nat.min_eq_right le]

theorem Sound.take_available (sound : ring.Sound) (maximum : UInt64) :
    ring.consumed.length +
        (if ring.head - ring.tail < maximum then ring.head - ring.tail else maximum).toNat ≤
      ring.published.length := by
  have ordered := sound.ordered
  rw [toNat_ite_lt, sound.toNat_depth]
  omega

theorem Consume.step_fits [Inhabited Record] {op op' : Consume Record} (sound : ring.Sound)
    (fits : op.Fits ring) (run : op.step ring = some (ring', op')) :
    ring'.Sound ∧ op'.Fits ring' ∧ Consumed ring ring' := by
  cases op with
  | loadTail maximum =>
      cases run
      exact ⟨sound, rfl, .refl ring⟩
  | loadHead maximum tail =>
      cases fits
      cases run
      exact ⟨sound, loop_fits (sound.take_available maximum) (Nat.zero_le _) rfl, .refl ring⟩
  | readSlots tail count read =>
      obtain ⟨rfl, available, unread, sofar⟩ := fits
      cases run
      have read' := next_one sound sofar unread available
      refine ⟨sound, loop_fits available ?_ ?_, .refl ring⟩
      · rw [List.length_append]
        exact unread
      · rw [List.length_append]
        exact read'
  | storeTail tail count read =>
      obtain ⟨rfl, available, whole⟩ := fits
      cases run
      obtain ⟨soundAfter, consumed⟩ := sound.storeTail available whole
      exact ⟨soundAfter, trivial, consumed⟩
  | returned count => cases run

theorem Consume.Fits.stable {op : Consume Record} (fits : op.Fits ring)
    (produced : Produced ring ring') : op.Fits ring' := by
  cases op with
  | loadTail maximum => trivial
  | loadHead maximum tail => exact fits.trans produced.tail.symm
  | readSlots tail count read =>
      obtain ⟨current, available, unread, sofar⟩ := fits
      refine ⟨current.trans produced.tail.symm, produced.available available, unread, ?_⟩
      rw [produced.next (by omega)]
      exact sofar
  | storeTail tail count read =>
      obtain ⟨current, available, whole⟩ := fits
      refine ⟨current.trans produced.tail.symm, produced.available available, ?_⟩
      rw [produced.next available]
      exact whole
  | returned count => trivial

/-! ## Spans -/

/-- The span is the contiguous part of the window at the tail. -/
structure ReadSpan.Fits (ring : SpscRing Record) (span : ReadSpan) : Prop where
  available : ring.consumed.length + span.count.toNat ≤ ring.published.length
  contiguous : ring.consumed.length % ring.capacity.value.toNat + span.count.toNat ≤
    ring.capacity.value.toNat
  data : span.data = if span.count = 0 then none else some (ring.tail &&& ring.mask)

theorem ReadSpan.Fits.view {span : ReadSpan} (fits : span.Fits ring) (sound : ring.Sound) :
    ring.view span = ring.next span.count.toNat := by
  by_cases none : span.count = 0
  · unfold SpscRing.view
    rw [fits.data, if_pos none, none]
    rfl
  · have shape : span = ⟨some (ring.tail &&& ring.mask), span.count⟩ := by
      cases span
      exact congrArg₂ ReadSpan.mk (fits.data.trans (if_neg none)) rfl
    rw [shape]
    exact sound.view_tail fits.available fits.contiguous

theorem ReadSpan.Fits.stable {span : ReadSpan} (fits : span.Fits ring)
    (produced : Produced ring ring') : span.Fits ring' where
  available := produced.available fits.available
  contiguous := by
    rw [produced.consumed, produced.capacity]
    exact fits.contiguous
  data := by
    unfold mask
    rw [produced.tail, produced.capacity]
    exact fits.data

def SpanRead.Fits (ring : SpscRing Record) : SpanRead → Prop
  | .loadTail _ => True
  | .loadHead _ tail => tail = ring.tail
  | .returned span => span.Fits ring

theorem Sound.span_fits (sound : ring.Sound) (maximum : UInt64) :
    (SpanRead.span ring maximum ring.tail).Fits ring := by
  have place : (ring.tail &&& ring.mask).toNat =
      ring.consumed.length % ring.capacity.value.toNat := by
    rw [sound.tail, sound.toNat_masked, sound.length]
  have inside : ring.consumed.length % ring.capacity.value.toNat < ring.capacity.value.toNat := by
    apply Nat.mod_lt
    have large := ring.capacity.two_le
    omega
  have contiguous : (ring.capacity.value - (ring.tail &&& ring.mask)).toNat =
      ring.capacity.value.toNat - ring.consumed.length % ring.capacity.value.toNat := by
    rw [UInt64.toNat_sub_of_le, place]
    apply UInt64.le_iff_toNat_le.mpr
    rw [place]
    exact inside.le
  have available := sound.take_available maximum
  unfold SpanRead.span
  refine ⟨?_, ?_, rfl⟩
  · change ring.consumed.length + (if _ < _ then _ else _ : UInt64).toNat ≤ _
    rw [toNat_ite_lt]
    omega
  · change _ + (if _ < _ then _ else _ : UInt64).toNat ≤ _
    rw [toNat_ite_lt, contiguous]
    omega

theorem SpanRead.step_fits {op op' : SpanRead} (sound : ring.Sound) (fits : op.Fits ring)
    (run : op.step ring = some (ring', op')) : ring' = ring ∧ op'.Fits ring := by
  cases op with
  | loadTail maximum =>
      cases run
      exact ⟨rfl, rfl⟩
  | loadHead maximum tail =>
      cases fits
      cases run
      exact ⟨rfl, sound.span_fits maximum⟩
  | returned span => cases run

theorem SpanRead.Fits.stable {op : SpanRead} (fits : op.Fits ring)
    (produced : Produced ring ring') : op.Fits ring' := by
  cases op with
  | loadTail maximum => trivial
  | loadHead maximum tail => exact fits.trans produced.tail.symm
  | returned span => exact ReadSpan.Fits.stable fits produced

/-- The release of a span; it never runs into the exception. -/
def Release.Fits (ring : SpscRing Record) (span : ReadSpan) : Release → Prop
  | .loadTail count => count = span.count ∧ span.Fits ring
  | .loadHead count tail => count = span.count ∧ tail = ring.tail ∧ span.Fits ring
  | .storeTail count tail => count = span.count ∧ tail = ring.tail ∧ span.Fits ring
  | .returned => True
  | .threw _ => False

theorem Release.step_fits {span : ReadSpan} {op op' : Release} (sound : ring.Sound)
    (fits : op.Fits ring span) (run : op.step ring = some (ring', op')) :
    ring'.Sound ∧ op'.Fits ring' span ∧ Consumed ring ring' := by
  cases op with
  | loadTail count =>
      obtain ⟨rfl, fits⟩ := fits
      cases run
      exact ⟨sound, ⟨rfl, rfl, fits⟩, .refl ring⟩
  | loadHead count tail =>
      obtain ⟨rfl, rfl, fits⟩ := fits
      have enough : ¬ ring.head - ring.tail < span.count := by
        apply UInt64.not_lt.mpr
        apply UInt64.le_iff_toNat_le.mpr
        rw [sound.toNat_depth]
        have available := fits.available
        omega
      simp only [Release.step] at run
      rw [if_neg enough] at run
      cases run
      exact ⟨sound, ⟨rfl, rfl, fits⟩, .refl ring⟩
  | storeTail count tail =>
      obtain ⟨rfl, rfl, fits⟩ := fits
      cases run
      obtain ⟨soundAfter, consumed⟩ := sound.storeTail fits.available
        (sound.view_tail fits.available fits.contiguous)
      exact ⟨soundAfter, trivial, consumed⟩
  | returned => cases run
  | threw error => cases run

theorem Release.Fits.stable {span : ReadSpan} {op : Release} (fits : op.Fits ring span)
    (produced : Produced ring ring') : op.Fits ring' span := by
  cases op with
  | loadTail count => exact ⟨fits.1, fits.2.stable produced⟩
  | loadHead count tail =>
      exact ⟨fits.1, fits.2.1.trans produced.tail.symm, fits.2.2.stable produced⟩
  | storeTail count tail =>
      exact ⟨fits.1, fits.2.1.trans produced.tail.symm, fits.2.2.stable produced⟩
  | returned => trivial
  | threw error => exact fits

end SpscRing

end Gambit
