import Gambit.TickRing.SpscOperations

/-!
# Runs of one producer and one consumer

In every interleaving the ring is sound and both operations under way fit it, so
that what the consumer has obtained is the beginning of what has been pushed.
-/

set_option autoImplicit false

open Machines

namespace Gambit

namespace SpscRing

variable {Record : Type} {ring ring' : SpscRing Record}

def Consumer.Fits (ring : SpscRing Record) : Consumer Record → Prop
  | .idle => True
  | .popping op => op.Fits ring
  | .consuming op => op.Fits ring
  | .spanning op => op.Fits ring
  | .releasing span op => op.Fits ring span

theorem Consumer.Fits.stable {consumer : Consumer Record} (fits : consumer.Fits ring)
    (produced : Produced ring ring') : consumer.Fits ring' := by
  cases consumer with
  | idle => trivial
  | popping op => exact TryPop.Fits.stable fits produced
  | consuming op => exact Consume.Fits.stable fits produced
  | spanning op => exact SpanRead.Fits.stable fits produced
  | releasing span op => exact Release.Fits.stable fits produced

/-- An unconsumed record stays in its slot. -/
def Kept (ring ring' : SpscRing Record) : Prop :=
  ∀ n, ring.consumed.length ≤ n → n < ring.published.length →
    ring'.slots[n % ring.slots.length]? = ring.slots[n % ring.slots.length]?

theorem Produced.keeps (produced : Produced ring ring') : Kept ring ring' := produced.kept

theorem Consumed.keeps (consumed : Consumed ring ring') : Kept ring ring' := by
  intro n _ _
  rw [consumed.slots]

namespace Threads

variable {s t : Threads Record}

structure Inv (s : Threads Record) : Prop where
  sound : s.ring.Sound
  producer : s.producer.Fits s.ring
  consumer : s.consumer.Fits s.ring

theorem inv_start (sound : ring.Sound) : (start ring).Inv := ⟨sound, trivial, trivial⟩

/-- A step of the operation under way, and where it leads. -/
theorem producerStep_eq (onward : s.producerStep = some t) :
    ∃ ring producer, s.producer.step s.ring = some (ring, producer) ∧
      t = { s with ring, producer } := by
  obtain ⟨⟨ring, producer⟩, run, rfl⟩ := Option.map_eq_some_iff.mp onward
  exact ⟨ring, producer, run, rfl⟩

theorem inv_producerStep (inv : s.Inv) (onward : s.producerStep = some t) :
    t.Inv ∧ Produced s.ring t.ring ∧ t.consumer = s.consumer := by
  obtain ⟨ring, producer, run, rfl⟩ := producerStep_eq onward
  obtain ⟨sound, fits, produced⟩ := TryPush.step_fits inv.sound inv.producer run
  exact ⟨⟨sound, fits, inv.consumer.stable produced⟩, produced, rfl⟩

/-- A call changes nothing but what the caller has under way. -/
theorem inv_call {consumer : Consumer Record} (inv : s.Inv)
    (onward : s.call consumer = some t) (fits : consumer.Fits s.ring) : t.Inv ∧ Kept s.ring t.ring ∧ t.ring.capacity = s.ring.capacity := by
  unfold call at onward
  split at onward
  · cases onward
    exact ⟨⟨inv.sound, inv.producer, fits⟩, fun _ _ _ => rfl, rfl⟩
  · cases onward

/-- What is in the consumer's hands is what comes next. -/
theorem inHand_eq (inv : s.Inv) :
    ∃ count, s.ring.consumed.length + count ≤ s.ring.published.length ∧
      s.inHand = s.ring.next count := by
  have nothing : ∃ count, s.ring.consumed.length + count ≤ s.ring.published.length ∧
      ([] : List Record) = s.ring.next count := ⟨0, inv.sound.ordered, rfl⟩
  have fits := inv.consumer
  unfold inHand
  cases under : s.consumer with
  | idle => exact nothing
  | popping op =>
      rw [under] at fits
      cases op with
      | storeTail tail record =>
          obtain ⟨_, available, read⟩ := fits
          exact ⟨1, available, read⟩
      | loadTail => exact nothing
      | loadHead tail => exact nothing
      | readSlot tail => exact nothing
      | returned record => exact nothing
  | consuming op =>
      rw [under] at fits
      cases op with
      | readSlots tail count read =>
          obtain ⟨_, available, unread, sofar⟩ := fits
          exact ⟨read.length, by omega, sofar⟩
      | storeTail tail count read =>
          obtain ⟨_, available, whole⟩ := fits
          exact ⟨count.toNat, available, whole⟩
      | loadTail maximum => exact nothing
      | loadHead maximum tail => exact nothing
      | returned count => exact nothing
  | spanning op =>
      rw [under] at fits
      cases op with
      | returned span => exact ⟨span.count.toNat, fits.available, fits.view inv.sound⟩
      | loadTail maximum => exact nothing
      | loadHead maximum tail => exact nothing
  | releasing span op =>
      rw [under] at fits
      cases op with
      | loadTail count =>
          exact ⟨span.count.toNat, fits.2.available, fits.2.view inv.sound⟩
      | loadHead count tail =>
          exact ⟨span.count.toNat, fits.2.2.available, fits.2.2.view inv.sound⟩
      | storeTail count tail =>
          exact ⟨span.count.toNat, fits.2.2.available, fits.2.2.view inv.sound⟩
      | returned => exact nothing
      | threw error => exact nothing

theorem obtained_prefix (inv : s.Inv) : s.obtained <+: s.ring.published := by
  obtain ⟨count, _, hand⟩ := inHand_eq inv
  unfold obtained
  rw [hand, consumed_append_next inv.sound]
  exact List.take_prefix _ _

/-- A push is refused only from a full ring. -/
theorem full_of_refused (inv : s.Inv) (onward : s.producerStep = some t)
    (refused : t.producer = .returned false) :
    s.ring.head - s.ring.tail = s.ring.capacity.value ∧
      s.ring.published.length = s.ring.consumed.length + s.ring.capacity.value.toNat := by
  obtain ⟨ring, producer, run, rfl⟩ := producerStep_eq onward
  cases refused
  exact (TryPush.full_of_refused inv.sound inv.producer run).2

variable [Inhabited Record]

theorem inv_consumerStep (inv : s.Inv) (onward : s.consumerStep = some t) :
    t.Inv ∧ Consumed s.ring t.ring ∧ t.producer = s.producer := by
  have current := inv.consumer
  unfold consumerStep at onward
  cases under : s.consumer with
  | idle =>
      rw [under] at onward
      cases onward
  | popping op =>
      rw [under] at onward current
      obtain ⟨⟨ring, next⟩, run, rfl⟩ := Option.map_eq_some_iff.mp onward
      obtain ⟨sound, fits, consumed⟩ := TryPop.step_fits inv.sound current run
      exact ⟨⟨sound, inv.producer.stable consumed, fits⟩, consumed, rfl⟩
  | consuming op =>
      rw [under] at onward current
      obtain ⟨⟨ring, next⟩, run, rfl⟩ := Option.map_eq_some_iff.mp onward
      obtain ⟨sound, fits, consumed⟩ := Consume.step_fits inv.sound current run
      exact ⟨⟨sound, inv.producer.stable consumed, fits⟩, consumed, rfl⟩
  | spanning op =>
      rw [under] at onward current
      obtain ⟨⟨ring, next⟩, run, rfl⟩ := Option.map_eq_some_iff.mp onward
      obtain ⟨rfl, fits⟩ := SpanRead.step_fits inv.sound current run
      exact ⟨⟨inv.sound, inv.producer, fits⟩, .refl _, rfl⟩
  | releasing span op =>
      rw [under] at onward current
      obtain ⟨⟨ring, next⟩, run, rfl⟩ := Option.map_eq_some_iff.mp onward
      obtain ⟨sound, fits, consumed⟩ := Release.step_fits inv.sound current run
      exact ⟨⟨sound, inv.producer.stable consumed, fits⟩, consumed, rfl⟩

theorem inv_step {action : Action Record} (inv : s.Inv) (onward : s.step action = some t) :
    t.Inv ∧ Kept s.ring t.ring ∧ t.ring.capacity = s.ring.capacity := by
  cases action with
  | tryPush record =>
      simp only [step] at onward
      split at onward
      · cases onward
        exact ⟨⟨inv.sound, trivial, inv.consumer⟩, fun _ _ _ => rfl, rfl⟩
      · cases onward
  | producer =>
      obtain ⟨after, produced, _⟩ := inv_producerStep inv onward
      exact ⟨after, produced.keeps, produced.capacity⟩
  | tryPop => exact inv_call inv onward trivial
  | consume maximum => exact inv_call inv onward trivial
  | readSpan maximum => exact inv_call inv onward trivial
  | release =>
      have current := inv.consumer
      simp only [step] at onward
      split at onward
      · next span under =>
          rw [under] at current
          cases onward
          exact ⟨⟨inv.sound, inv.producer, rfl, current⟩, fun _ _ _ => rfl, rfl⟩
      · cases onward
  | consumer =>
      obtain ⟨after, consumed, _⟩ := inv_consumerStep inv onward
      exact ⟨after, consumed.keeps, consumed.capacity⟩

theorem inv_of_reaches {maxSize capacity : UInt64} (created : new maxSize capacity = .ok ring)
    (run : Reaches step (start ring) s) : s.Inv ∧ s.ring.capacity.value = capacity := by
  obtain ⟨sound, size, _⟩ := new_sound created
  refine run.invariant (P := fun r => r.Inv ∧ r.ring.capacity.value = capacity)
    ⟨inv_start sound, size⟩ ?_
  intro r action r' held onward
  obtain ⟨inv, _, same⟩ := inv_step held.1 onward
  exact ⟨inv, by rw [same]; exact held.2⟩

end Threads

end SpscRing

end Gambit
