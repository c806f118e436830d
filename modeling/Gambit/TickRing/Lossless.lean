import Mathlib
import Gambit.TickRing.Runs
import Gambit.TickRing.SpscRuns

/-!
# The ring loses nothing

The ring itself, under any calls of one producer and one consumer, and the tick
ring around it: every record offered is published or counted as dropped, and
every record published is consumed and counted or still in the ring.
-/

set_option autoImplicit false

open Machines

namespace Gambit

namespace TickRing

open SpscRing (TryPush TryPop Consume SpanRead Release ReadSpan Produced Consumed)

variable {Record : Type} {ring ring' : SpscRing Record} {s t : State Record}

/-! ## The counters of records -/

namespace Producer

/-- The record that is published and not counted yet. -/
def uncounted : Producer Record → UInt64
  | .counting _ => 1
  | _ => 0

/-- The records of the call that are neither published nor dropped yet. -/
def remaining : Producer Record → Nat
  | .loadClosed batch _ => batch.records.length - batch.pushed
  | .pushing batch _ => batch.records.length - batch.pushed
  | .counting batch => batch.records.length - (batch.pushed + 1)
  | .dropping batch => batch.records.length - batch.pushed
  | _ => 0

/-- The loop is at one of the records of the batch. -/
def Within : Producer Record → Prop
  | .loadClosed batch _ => batch.pushed < batch.records.length
  | .pushing batch _ => batch.pushed < batch.records.length
  | .counting batch => batch.pushed < batch.records.length
  | .dropping batch => batch.pushed < batch.records.length
  | _ => True

end Producer

structure Counted (s : State Record) : Prop where
  within : s.producer.Within
  pushed : s.counters .pushed + s.producer.uncounted = UInt64.ofNat s.ring.published.length
  offered : UInt64.ofNat s.offered = UInt64.ofNat s.ring.published.length + s.counters .dropped +
    UInt64.ofNat s.producer.remaining
  popped : s.counters .popped + s.consumer.uncounted + s.leaser.uncounted =
    UInt64.ofNat s.ring.consumed.length

theorem finish_counts (batch : Batch Record) :
    batch.finish.Within ∧ batch.finish.uncounted = 0 ∧ batch.finish.remaining = 0 := by
  unfold Batch.finish
  split
  · exact ⟨trivial, rfl, rfl⟩
  · exact ⟨trivial, rfl, rfl⟩

theorem finish_ne_dropping (batch other : Batch Record) : batch.finish ≠ .dropping other := by
  unfold Batch.finish
  split
  · nofun
  · nofun

theorem loop_ne_dropping (batch other : Batch Record) : batch.loop ≠ .dropping other := by
  unfold Batch.loop
  split
  · nofun
  · exact finish_ne_dropping batch other

theorem loop_counts (batch : Batch Record) :
    batch.loop.Within ∧ batch.loop.uncounted = 0 ∧
      batch.loop.remaining = batch.records.length - batch.pushed := by
  unfold Batch.loop
  split
  · next record present =>
      obtain ⟨inside, _⟩ := List.getElem?_eq_some_iff.mp present
      exact ⟨inside, rfl, rfl⟩
  · next absent =>
      obtain ⟨within, uncounted, remaining⟩ := finish_counts batch
      have outside := List.getElem?_eq_none_iff.mp absent
      refine ⟨within, uncounted, ?_⟩
      rw [remaining]
      omega

/-- What a step of another thread leaves to the producer. -/
theorem Counted.beside (counted : Counted s) (producer : t.producer = s.producer)
    (published : t.ring.published = s.ring.published)
    (pushed : t.counters .pushed = s.counters .pushed)
    (dropped : t.counters .dropped = s.counters .dropped) (offered : t.offered = s.offered)
    (popped : t.counters .popped + t.consumer.uncounted + t.leaser.uncounted =
      UInt64.ofNat t.ring.consumed.length) : Counted t where
  within := by
    rw [producer]
    exact counted.within
  pushed := by
    rw [pushed, producer, published]
    exact counted.pushed
  offered := by
    rw [offered, published, dropped, producer]
    exact counted.offered
  popped := popped

/-- A balanced change of the counter keeps it equal to the tail. -/
theorem counted_of_balanced {counted counted' other tail tail' : UInt64}
    (before : counted + other = tail) (balanced : counted' + tail = counted + tail') :
    counted' + other = tail' := by
  rw [← before, add_left_comm] at balanced
  exact add_left_cancel balanced

/-- A pushing step, by what the push returns. -/
theorem push_counts {batch : Batch Record} {op op' : TryPush Record}
    (counted : Counted s) (under : s.producer = .pushing batch op)
    (run : op.step s.ring = some (ring, op')) :
    (op' = .returned true → Counted { s with ring, producer := .counting batch }) ∧
      (op' = .returned false → Counted { s with ring, producer := .dropping batch }) ∧
      (op' ≠ .returned true → Counted { s with ring, producer := .pushing batch op' }) := by
  obtain ⟨within, pushed, offered, popped⟩ := counted
  rw [under] at within pushed offered
  have tail : ring.consumed = s.ring.consumed := by
    cases op with
    | loadTail record head =>
        simp only [TryPush.step] at run
        split at run
        · cases run
          rfl
        · cases run
          rfl
    | loadHead record =>
        cases run
        rfl
    | writeSlot record head =>
        cases run
        rfl
    | storeHead record head =>
        cases run
        rfl
    | returned flag => cases run
  rcases TryPush.published_of_step run with ⟨record, head, _, rfl, published⟩ | ⟨other, published⟩
  · refine ⟨fun _ => ?_, by simp, fun no => absurd rfl no⟩
    have length : ring.published.length = s.ring.published.length + 1 := by
      rw [published, List.length_append]
      rfl
    refine ⟨within, ?_, ?_, ?_⟩
    · change s.counters .pushed + 1 = _
      rw [length, UInt64.ofNat_add, ← pushed]
      change _ = s.counters .pushed + 0 + 1
      rw [add_zero]
    · change UInt64.ofNat s.offered = UInt64.ofNat ring.published.length + s.counters .dropped +
        UInt64.ofNat (batch.records.length - (batch.pushed + 1))
      have inside : batch.pushed < batch.records.length := within
      have rest : batch.records.length - batch.pushed =
          batch.records.length - (batch.pushed + 1) + 1 := by omega
      rw [offered]
      change _ + UInt64.ofNat (batch.records.length - batch.pushed) = _
      rw [rest, length, UInt64.ofNat_add, UInt64.ofNat_add]
      ac_rfl
    · change _ = UInt64.ofNat ring.consumed.length
      rw [tail]
      exact popped
  · refine ⟨fun yes => absurd yes other, fun _ => ?_, fun _ => ?_⟩
    · refine ⟨within, ?_, ?_, ?_⟩
      · change _ = UInt64.ofNat ring.published.length
        rw [published]
        exact pushed
      · change _ = UInt64.ofNat ring.published.length + _ + _
        rw [published]
        exact offered
      · change _ = UInt64.ofNat ring.consumed.length
        rw [tail]
        exact popped
    · refine ⟨within, ?_, ?_, ?_⟩
      · change _ = UInt64.ofNat ring.published.length
        rw [published]
        exact pushed
      · change _ = UInt64.ofNat ring.published.length + _ + _
        rw [published]
        exact offered
      · change _ = UInt64.ofNat ring.consumed.length
        rw [tail]
        exact popped

theorem Counted.producerStep (counted : Counted s) (onward : s.producerStep = some t) :
    Counted t := by
  have whole := counted
  obtain ⟨within, pushed, offered, popped⟩ := counted
  unfold State.producerStep at onward
  cases under : s.producer with
  | idle =>
      rw [under] at onward
      cases onward
  | loadClosed batch record =>
      rw [under] at within pushed offered
      simp only [under] at onward
      split at onward
      · cases onward
        exact ⟨within, pushed, offered, popped⟩
      · cases onward
        exact ⟨within, pushed, offered, popped⟩
  | pushing batch op =>
      simp only [under] at onward
      split at onward
      · next run =>
          cases onward
          exact (push_counts whole under run).1 rfl
      · next run =>
          cases onward
          exact (push_counts whole under run).2.1 rfl
      · next unpushed _ run =>
          cases onward
          exact (push_counts whole under run).2.2 unpushed
      · cases onward
  | counting batch =>
      rw [under] at pushed offered
      simp only [under] at onward
      cases onward
      obtain ⟨inside, uncounted, remaining⟩ :=
        loop_counts { batch with pushed := batch.pushed + 1 }
      refine ⟨inside, ?_, ?_, popped⟩
      · rw [uncounted, add_zero]
        exact pushed
      · rw [remaining]
        exact offered
  | dropping batch =>
      rw [under] at pushed offered
      simp only [under] at onward
      cases onward
      obtain ⟨inside, uncounted, remaining⟩ := finish_counts batch
      refine ⟨inside, ?_, ?_, popped⟩
      · rw [uncounted]
        exact pushed
      · rw [remaining]
        simp only [State.add, Function.update_self]
        rw [offered, add_assoc (UInt64.ofNat _)]
        exact (add_zero _).symm
  | locking count =>
      rw [under] at pushed offered
      simp only [under] at onward
      obtain ⟨locked, taken, rfl⟩ := Option.map_eq_some_iff.mp onward
      obtain ⟨_, rfl⟩ := lock_eq taken
      exact ⟨trivial, pushed, offered, popped⟩
  | unlocking count =>
      rw [under] at pushed offered
      simp only [under] at onward
      cases onward
      exact ⟨trivial, pushed, offered, popped⟩
  | notifying count =>
      rw [under] at pushed offered
      simp only [under] at onward
      cases onward
      refine ⟨trivial, pushed, offered, ?_⟩
      change _ + s.consumer.wake.uncounted + _ = _
      rw [wake_uncounted]
      exact popped
  | returned count =>
      rw [under] at onward
      cases onward

theorem free_counts {producer : Producer Record} (free : producer.free = true) :
    producer.uncounted = 0 ∧ producer.remaining = 0 := by
  cases producer with
  | idle => exact ⟨rfl, rfl⟩
  | returned pushed => exact ⟨rfl, rfl⟩
  | _ => cases free

theorem Counted.move (counted : Counted s) (move : Move s t) : Counted t := by
  cases move with
  | producer effect step =>
      rcases step with onward | ⟨free, records, rfl⟩
      · exact counted.producerStep onward
      · obtain ⟨none, nothing⟩ := free_counts free
        obtain ⟨inside, uncounted, remaining⟩ := loop_counts (⟨records, 0⟩ : Batch Record)
        have pushed := counted.pushed
        have offered := counted.offered
        rw [none] at pushed
        rw [nothing] at offered
        refine ⟨inside, ?_, ?_, counted.popped⟩
        · rw [uncounted]
          exact pushed
        · rw [remaining]
          change UInt64.ofNat (s.offered + records.length) = _ + _ + UInt64.ofNat (records.length - 0)
          rw [UInt64.ofNat_add, offered]
          change _ + 0 + _ = _
          rw [add_zero, Nat.sub_zero]
  | consumer effect =>
      obtain ⟨_, beside, published, _, _, balanced⟩ := effect
      apply counted.beside beside.producer published beside.pushed beside.dropped beside.offered
      rw [beside.leaser]
      exact counted_of_balanced counted.popped balanced
  | leaser effect =>
      have frame := effect.frame
      have before := counted.popped
      have balanced := effect.balanced
      apply counted.beside frame.producer effect.published frame.pushed frame.dropped frame.offered
      rw [frame.consumer, add_right_comm]
      rw [add_right_comm] at before
      exact counted_of_balanced before balanced
  | closer i effect =>
      have frame := effect.frame
      obtain ⟨_, _, uncounted, _⟩ := woken_eq s.ring frame.consumer
      apply counted.beside frame.producer (by rw [frame.ring]) (by rw [frame.counters])
        (by rw [frame.counters]) frame.offered
      rw [frame.counters, uncounted, frame.leaser, frame.ring]
      exact counted.popped
  | monitor i effect =>
      have frame := effect.frame
      obtain ⟨_, _, uncounted, _⟩ := woken_eq s.ring frame.consumer
      apply counted.beside frame.producer (by rw [frame.ring]) (by rw [frame.counters])
        (by rw [frame.counters]) frame.offered
      rw [frame.counters, uncounted, frame.leaser, frame.ring]
      exact counted.popped

theorem counted_start (ring : SpscRing Record) (unpublished : ring.published = [])
    (unconsumed : ring.consumed = []) : Counted (State.start ring) := by
  refine ⟨trivial, ?_, ?_, ?_⟩
  · change _ = UInt64.ofNat ring.published.length
    rw [unpublished]
    rfl
  · change _ = UInt64.ofNat ring.published.length + _ + _
    rw [unpublished]
    rfl
  · change _ = UInt64.ofNat ring.consumed.length
    rw [unconsumed]
    rfl

theorem Effect.capacity (effect : Effect s t) : t.ring.capacity = s.ring.capacity := by
  rcases effect.ring with produced | consumed
  · exact produced.capacity
  · exact consumed.capacity

theorem counted_of_reaches [Inhabited Record] {maxSize capacity : UInt64}
    (created : SpscRing.new maxSize capacity = .ok ring)
    (run : Reaches State.step (State.start ring) s) :
    s.Inv ∧ Counted s ∧ s.ring.capacity.value = capacity := by
  obtain ⟨sound, size, unpublished, unconsumed⟩ := SpscRing.new_sound created
  refine reaches_invariant (P := fun r => Counted r ∧ r.ring.capacity.value = capacity)
    (inv_start sound) ⟨counted_start ring unpublished unconsumed, size⟩ ?_ run
  intro r r' _ held move
  refine ⟨held.1.move move, ?_⟩
  rw [move.effect.capacity]
  exact held.2

/-- A push of a batch stops early only when the ring was closed or full. -/
theorem closed_or_full (inv : s.Inv) (onward : s.producerStep = some t) {batch : Batch Record}
    (dropping : t.producer = .dropping batch) :
    s.closed = true ∨
      s.ring.published.length = s.ring.consumed.length + s.ring.capacity.value.toNat := by
  have fits := inv.producer
  unfold State.producerStep at onward
  cases under : s.producer with
  | idle =>
      rw [under] at onward
      cases onward
  | loadClosed batch record =>
      simp only [under] at onward
      split at onward
      · next closed => exact .inl closed
      · cases onward
        cases dropping
  | pushing batch op =>
      rw [under] at fits
      simp only [under] at onward
      split at onward
      · cases onward
        cases dropping
      · next run => exact .inr (TryPush.full_of_refused inv.sound fits run).2.2
      · cases onward
        cases dropping
      · cases onward
  | counting batch =>
      simp only [under] at onward
      cases onward
      exact absurd dropping (loop_ne_dropping _ _)
  | dropping batch =>
      simp only [under] at onward
      cases onward
      exact absurd dropping (finish_ne_dropping _ _)
  | locking count =>
      simp only [under] at onward
      obtain ⟨locked, _, rfl⟩ := Option.map_eq_some_iff.mp onward
      cases dropping
  | unlocking count =>
      simp only [under] at onward
      cases onward
      cases dropping
  | notifying count =>
      simp only [under] at onward
      cases onward
      cases dropping
  | returned count =>
      rw [under] at onward
      cases onward

end TickRing

/-! ## First in, first out -/

/-- What holds of a ring between one producer and one consumer. -/
structure SpscRing.Threads.Lossless {Record : Type} [Inhabited Record]
    (s : SpscRing.Threads Record) : Prop where
  fifo : s.obtained <+: s.ring.published
  ordered : s.ring.consumed.length ≤ s.ring.published.length
  distance : (s.ring.head - s.ring.tail).toNat =
    s.ring.published.length - s.ring.consumed.length
  bounded : s.ring.head - s.ring.tail ≤ s.ring.capacity.value
  kept : ∀ action t, s.step action = some t → Kept s.ring t.ring
  reported : ∀ t, s.producerStep = some t →
    (∃ record, t.producer = .returned true ∧ t.ring.published = s.ring.published ++ [record]) ∨
      t.producer ≠ .returned true ∧ t.ring.published = s.ring.published
  refused : ∀ t, s.producerStep = some t → t.producer = .returned false →
    s.ring.head - s.ring.tail = s.ring.capacity.value ∧
      s.ring.published.length = s.ring.consumed.length + s.ring.capacity.value.toNat

/-- What holds of the tick ring. -/
structure TickRing.State.Lossless {Record : Type} (s : TickRing.State Record) : Prop where
  fifo : s.ring.consumed <+: s.ring.published
  bounded : s.ring.head - s.ring.tail ≤ s.ring.capacity.value
  refused : ∀ t batch, s.producerStep = some t → t.producer = .dropping batch →
    s.closed = true ∨
      s.ring.published.length = s.ring.consumed.length + s.ring.capacity.value.toNat
  offered : s.producer.free = true →
    UInt64.ofNat s.offered = s.counters .pushed + s.counters .dropped
  pushed : s.producer.free = true → s.consumer.free = true → s.leaser = .idle →
    s.counters .pushed = s.counters .popped + (s.ring.head - s.ring.tail)

theorem SpscRing.Threads.Inv.lossless {Record : Type} [Inhabited Record]
    {s : SpscRing.Threads Record} (inv : s.Inv) : s.Lossless where
  fifo := obtained_prefix inv
  ordered := inv.sound.ordered
  distance := inv.sound.toNat_depth
  bounded := inv.sound.depth_le
  kept := fun _ _ onward => (inv_step inv onward).2.1
  reported := by
    intro t onward
    obtain ⟨ring, producer, run, rfl⟩ := producerStep_eq onward
    rcases TryPush.published_of_step run with ⟨record, _, _, rfl, published⟩ | unchanged
    · exact .inl ⟨record, rfl, published⟩
    · exact .inr unchanged
  refused := fun _ onward refused => full_of_refused inv onward refused

theorem TickRing.Counted.lossless {Record : Type} {s : TickRing.State Record} (inv : s.Inv)
    (counted : TickRing.Counted s) : s.Lossless where
  fifo := by
    rw [inv.sound.fifo]
    exact List.take_prefix _ _
  bounded := inv.sound.depth_le
  refused := fun _ _ onward dropping => closed_or_full inv onward dropping
  offered := by
    intro free
    obtain ⟨none, nothing⟩ := free_counts free
    have pushed := counted.pushed
    rw [none, add_zero] at pushed
    rw [counted.offered, nothing, pushed]
    exact add_zero _
  pushed := by
    intro free idle quiet
    have pushed := counted.pushed
    have popped := counted.popped
    rw [(free_counts free).1, add_zero] at pushed
    rw [uncounted_of_outside (free_outside idle).1, quiet] at popped
    change _ + 0 + 0 = _ at popped
    rw [add_zero, add_zero] at popped
    rw [pushed, popped, inv.sound.head, inv.sound.tail, add_sub_cancel]

/-- The ring is a lossless queue for one producer and one consumer, and the
counters of the tick ring account for every record. -/
theorem lossless_fifo {Record : Type} [Inhabited Record] {maxSize capacity : UInt64}
    {ring : SpscRing Record} (created : SpscRing.new maxSize capacity = .ok ring) :
    (∀ s : SpscRing.Threads Record,
        Reaches SpscRing.Threads.step (SpscRing.Threads.start ring) s →
        s.Lossless ∧ s.ring.capacity.value = capacity) ∧
      ∀ s : TickRing.State Record, Reaches TickRing.State.step (TickRing.State.start ring) s →
        s.Lossless ∧ s.ring.capacity.value = capacity := by
  constructor
  · intro s run
    obtain ⟨inv, size⟩ := SpscRing.Threads.inv_of_reaches created run
    exact ⟨inv.lossless, size⟩
  · intro s run
    obtain ⟨inv, counted, size⟩ := TickRing.counted_of_reaches created run
    exact ⟨counted.lossless inv, size⟩

/-- A ring of two slots. -/
def twoSlots : SpscRing Nat where
  capacity := ⟨2, by decide, by decide⟩
  slots := [0, 0]
  head := 0
  tail := 0
  published := []
  consumed := []

/-- Three records through two slots, one of them refused at first. -/
def wrapAround : List (SpscRing.Action Nat) :=
  [.tryPush 5, .producer, .producer, .producer, .producer] ++
    [.tryPush 6, .producer, .producer, .producer, .producer] ++
    [.tryPush 7, .producer, .producer] ++
    [.tryPop, .consumer, .consumer, .consumer, .consumer] ++
    [.tryPush 7, .producer, .producer, .producer, .producer] ++
    [.readSpan 2, .consumer, .consumer]

theorem lossless_fifo_wraparound :
    ∃ s, exec SpscRing.Threads.step (SpscRing.Threads.start twoSlots) wrapAround = some s ∧
      s.ring.published = [5, 6, 7] ∧ s.obtained = [5, 6] ∧ s.Lossless := by
  have created : SpscRing.new 1000 2 = .ok twoSlots := rfl
  refine ⟨_, rfl, rfl, rfl, ?_⟩
  have run : exec SpscRing.Threads.step (SpscRing.Threads.start twoSlots) wrapAround = some _ := rfl
  exact ((lossless_fifo created).1 _ (reaches_of_exec run)).1

end Gambit
