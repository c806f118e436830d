import Gambit.TickRing.Phases
import Mathlib.Algebra.BigOperators.Group.List.Basic

/-!
# What the steps of the tick ring keep

Every step keeps the invariant, and changes the ring like a producer or like a
consumer.  The position up to which consumption has been decided moves only
where the consumer decides how many records it takes.
-/

set_option autoImplicit false

namespace Gambit

namespace TickRing

open SpscRing (TryPush TryPop Consume SpanRead Release ReadSpan Produced Consumed)

variable {Record : Type} {ring ring' : SpscRing Record} {s t : State Record}

/-- The records that the tail will be advanced by for this lease. -/
def Lease.pending (lease : Lease) : Nat :=
  if lease.advances = [] then lease.span.count.toNat else 0

/-- The position up to which consumption has been decided. -/
def State.reserved (s : State Record) : Nat :=
  s.ring.consumed.length + s.consumer.pending + (s.leases.map Lease.pending).sum

structure Effect (s t : State Record) : Prop where
  inv : t.Inv
  ring : Produced s.ring t.ring ∨ Consumed s.ring t.ring
  reserved : s.consumer.decides = false → t.reserved = s.reserved

theorem Lease.Settled.pending {lease : Lease} (settled : lease.Settled ring) :
    lease.pending = 0 := by
  unfold Lease.pending
  rw [settled.advanced]
  rfl

theorem Lease.Held.pending {lease : Lease} (held : lease.Held ring) :
    lease.pending = lease.span.count.toNat :=
  if_pos held.advances

theorem Lease.Advanced.pending {lease : Lease} (advanced : lease.Advanced ring) :
    lease.pending = 0 := by
  unfold Lease.pending
  rw [advanced.advanced]
  rfl

theorem sum_pending_settled {leases : List Lease} (settled : ∀ lease ∈ leases, lease.Settled ring) :
    (leases.map Lease.pending).sum = 0 := by
  apply List.sum_eq_zero
  intro n member
  obtain ⟨lease, present, rfl⟩ := List.mem_map.mp member
  exact (settled lease present).pending

theorem State.Leased.sum_pending {earlier : List Lease} {lease : Lease}
    (leased : s.Leased earlier lease) : (s.leases.map Lease.pending).sum = lease.pending := by
  rw [leased.leases, List.map_append, List.sum_append, sum_pending_settled leased.settled,
    Nat.zero_add]
  exact List.sum_singleton

theorem State.Leased.getElem? {earlier : List Lease} {lease : Lease}
    (leased : s.Leased earlier lease) : s.leases[earlier.length]? = some lease := by
  rw [leased.leases]
  exact List.getElem?_concat_length

/-! ## Steps that leave the leases alone -/

structure SameLeases (s t : State Record) : Prop where
  leaser : t.leaser = s.leaser
  leases : t.leases = s.leases
  active : t.leaseActive = s.leaseActive

theorem State.Unleased.moved (unleased : s.Unleased) (same : SameLeases s t)
    (later : s.ring.consumed.length ≤ t.ring.consumed.length) : t.Unleased where
  quiet := same.leaser.trans unleased.quiet
  settled := by
    rw [same.leases]
    exact fun lease member => (unleased.settled lease member).later later

theorem State.Leased.moved {earlier : List Lease} {lease : Lease} (leased : s.Leased earlier lease)
    (same : SameLeases s t) (later : s.ring.consumed.length ≤ t.ring.consumed.length)
    (role : t.consumer.role = .outside) : t.Leased earlier lease where
  active := same.active.trans leased.active
  leases := same.leases.trans leased.leases
  settled := fun other member => (leased.settled other member).later later
  role := role

/-- The consumer stays in its part, leaves it for the outside, or passes the
check for a lease. -/
def RoleStep (s t : State Record) : Prop :=
  t.consumer.role = s.consumer.role ∨
    s.consumer.role ≠ .leasing ∧ t.consumer.role = .outside ∨
    s.consumer.role ≠ .leasing ∧ s.leaseActive = false ∧ t.consumer.role = .taking

theorem RoleStep.outside (step : RoleStep s t) (active : s.leaseActive = true)
    (outside : s.consumer.role = .outside) : t.consumer.role = .outside := by
  rcases step with same | ⟨_, leaves⟩ | ⟨_, inactive, _⟩
  · rw [same]
    exact outside
  · exact leaves
  · rw [active] at inactive
    cases inactive

theorem State.Phase.moved (phase : s.Phase) (same : SameLeases s t)
    (produced : Produced s.ring t.ring) (step : RoleStep s t) : t.Phase := by
  have later : s.ring.consumed.length ≤ t.ring.consumed.length := by
    rw [produced.consumed]
  cases phase with
  | free unleased inactive role =>
      refine .free (unleased.moved same later) (same.active.trans inactive) ?_
      rcases step with kept | ⟨_, leaves⟩ | ⟨_, _, enters⟩
      · rw [kept]
        exact role
      · rw [leaves]
        nofun
      · rw [enters]
        nofun
  | starting unleased active role =>
      refine .starting (unleased.moved same later) (same.active.trans active) ?_
      rcases step with kept | ⟨other, _⟩ | ⟨other, _⟩
      · rw [kept]
        exact role
      · exact absurd role other
      · exact absurd role other
  | pinned earlier lease leased held quiet used =>
      have role := step.outside leased.active leased.role
      exact .pinned earlier lease (leased.moved same later role) (held.stable produced)
        (same.leaser.trans quiet) used
  | releasing earlier lease op leased held under ready fits unreturned =>
      have role := step.outside leased.active leased.role
      exact .releasing earlier lease op (leased.moved same later role) (held.stable produced)
        (same.leaser.trans under) ready (fits.stable produced) unreturned
  | crediting earlier lease leased advanced under =>
      have role := step.outside leased.active leased.role
      exact .crediting earlier lease (leased.moved same later role) (advanced.stable produced)
        (same.leaser.trans under)
  | clearing earlier lease leased advanced under =>
      have role := step.outside leased.active leased.role
      exact .clearing earlier lease (leased.moved same later role) (advanced.stable produced)
        (same.leaser.trans under)

/-- What the consumer never writes. -/
structure Beside (s t : State Record) : Prop where
  producer : t.producer = s.producer
  leaser : t.leaser = s.leaser
  closed : t.closed = s.closed
  closers : t.closers = s.closers
  monitors : t.monitors = s.monitors
  offered : t.offered = s.offered
  pushed : t.counters .pushed = s.counters .pushed
  dropped : t.counters .dropped = s.counters .dropped

/-- The counter of consumed records moves with the tail. -/
def Balanced (s t : State Record) : Prop :=
  t.counters .popped + t.consumer.uncounted + UInt64.ofNat s.ring.consumed.length =
    s.counters .popped + s.consumer.uncounted + UInt64.ofNat t.ring.consumed.length

structure ConsumerEffect (s t : State Record) : Prop extends Effect s t where
  beside : Beside s t
  published : t.ring.published = s.ring.published
  leases : s.leases <+: t.leases
  tail : t.ring.consumed = s.ring.consumed ∨ s.consumer.role = .taking
  balanced : Balanced s t

/-- The consumer stays away from the ring and the leases. -/
structure Still (s t : State Record) : Prop extends Beside s t where
  ring : t.ring = s.ring
  leases : t.leases = s.leases
  active : t.leaseActive = s.leaseActive

/-- The consumer does not count any record either. -/
structure Quiet (s t : State Record) : Prop extends Still s t where
  popped : t.counters .popped = s.counters .popped

theorem quiet_consumer (mutex : Option MutexOwner) (consumer : Consumer Record) :
    Quiet s { s with mutex, consumer } :=
  ⟨⟨⟨rfl, rfl, rfl, rfl, rfl, rfl, rfl, rfl⟩, rfl, rfl, rfl⟩, rfl⟩

theorem still_add {counter : Counter} {n : UInt64} (consumer : Consumer Record)
    (pushed : .pushed ≠ counter) (dropped : .dropped ≠ counter) :
    Still s { s.add counter n with consumer } :=
  ⟨⟨rfl, rfl, rfl, rfl, rfl, rfl, Function.update_of_ne pushed _ _,
    Function.update_of_ne dropped _ _⟩, rfl, rfl, rfl⟩

theorem quiet_add {counter : Counter} {n : UInt64} (consumer : Consumer Record)
    (pushed : .pushed ≠ counter) (popped : .popped ≠ counter) (dropped : .dropped ≠ counter) :
    Quiet s { s.add counter n with consumer } :=
  ⟨still_add consumer pushed dropped, Function.update_of_ne popped _ _⟩

theorem State.Inv.moved (inv : s.Inv) (still : Still s t) (fits : t.consumer.Fits s.ring)
    (role : RoleStep s t) (balanced : Balanced s t)
    (pending : s.consumer.decides = false → t.consumer.pending = s.consumer.pending) :
    ConsumerEffect s t where
  inv := {
    sound := by
      rw [still.ring]
      exact inv.sound
    producer := by
      rw [still.ring, still.producer]
      exact inv.producer
    consumer := by
      rw [still.ring]
      exact fits
    phase := by
      apply inv.phase.moved ⟨still.leaser, still.leases, still.active⟩ _ role
      rw [still.ring]
      exact .refl _ }
  ring := by
    rw [still.ring]
    exact .inl (.refl _)
  reserved := by
    intro undecided
    unfold State.reserved
    rw [still.ring, still.leases, pending undecided]
  beside := still.toBeside
  published := by
    rw [still.ring]
  leases := by
    rw [still.leases]
  tail := by
    rw [still.ring]
    exact .inl rfl
  balanced := balanced

theorem Quiet.balanced (quiet : Quiet s t) (uncounted : t.consumer.uncounted = s.consumer.uncounted) :
    Balanced s t := by
  unfold Balanced
  rw [quiet.ring, quiet.popped, uncounted]

theorem State.Inv.moved_outside (inv : s.Inv) (quiet : Quiet s t)
    (before : s.consumer.role = .outside) (nothing : s.consumer.pending = 0)
    (after : t.consumer.Outside) : ConsumerEffect s t :=
  inv.moved quiet.toStill (after.fits _) (.inl (after.role.trans before.symm))
    (quiet.balanced
      ((uncounted_of_outside after.role).trans (uncounted_of_outside before).symm))
    fun _ => after.pending.trans nothing.symm

/-- A step inside a call, with the same records uncounted. -/
theorem State.Inv.moved_inside (inv : s.Inv) (quiet : Quiet s t) (fits : t.consumer.Fits s.ring)
    (role : RoleStep s t) (uncounted : t.consumer.uncounted = s.consumer.uncounted)
    (pending : s.consumer.decides = false → t.consumer.pending = s.consumer.pending) :
    ConsumerEffect s t :=
  inv.moved quiet.toStill fits role (quiet.balanced uncounted) pending

theorem lock_eq {owner : MutexOwner} (locked : s.lock owner = some t) :
    s.mutex = none ∧ t = { s with mutex := some owner } := by
  unfold State.lock at locked
  split at locked
  · next free =>
      cases locked
      exact ⟨free, rfl⟩
  · cases locked

/-! ## The producer -/

/-- What the producer never writes; it may wake the consumer. -/
structure ProducerFrame (s t : State Record) : Prop extends SameLeases s t where
  closed : t.closed = s.closed
  closers : t.closers = s.closers
  monitors : t.monitors = s.monitors
  popped : t.counters .popped = s.counters .popped
  consumer : t.consumer = s.consumer ∨ t.consumer = s.consumer.wake

structure ProducerEffect (s t : State Record) : Prop extends Effect s t where
  frame : ProducerFrame s t
  produced : Produced s.ring t.ring

/-- A consumer that may have been woken is where it was. -/
theorem woken_eq {before after : Consumer Record} (ring : SpscRing Record)
    (woken : after = before ∨ after = before.wake) :
    after.role = before.role ∧ after.pending = before.pending ∧
      after.uncounted = before.uncounted ∧ (before.Fits ring → after.Fits ring) := by
  rcases woken with rfl | rfl
  · exact ⟨rfl, rfl, rfl, id⟩
  · exact ⟨wake_role before, wake_pending before, wake_uncounted before, fun fits => fits.wake⟩

theorem State.Inv.produced (inv : s.Inv) (frame : ProducerFrame s t)
    (sound : t.ring.Sound) (fits : t.producer.Fits t.ring) (produced : Produced s.ring t.ring) :
    ProducerEffect s t := by
  obtain ⟨role, pending, _, still⟩ := woken_eq t.ring frame.consumer
  refine ⟨⟨⟨sound, fits, still (inv.consumer.stable produced), ?_⟩, .inl produced, ?_⟩, frame,
    produced⟩
  · exact inv.phase.moved frame.toSameLeases produced (.inl role)
  · intro _
    unfold State.reserved
    rw [produced.consumed, frame.leases, pending]

theorem loop_fits (batch : Batch Record) : batch.loop.Fits ring := by
  unfold Batch.loop Batch.finish
  split
  · trivial
  · split <;> trivial

theorem finish_fits (batch : Batch Record) : batch.finish.Fits ring := by
  unfold Batch.finish
  split <;> trivial

theorem producerStep_effect (inv : s.Inv) (onward : s.producerStep = some t) :
    ProducerEffect s t := by
  have fits := inv.producer
  unfold State.producerStep at onward
  cases under : s.producer with
  | idle =>
      rw [under] at onward
      cases onward
  | loadClosed batch record =>
      simp only [under] at onward
      split at onward
      · cases onward
        exact inv.produced ⟨⟨rfl, rfl, rfl⟩, rfl, rfl, rfl, rfl, .inl rfl⟩ inv.sound trivial (.refl _)
      · cases onward
        exact inv.produced ⟨⟨rfl, rfl, rfl⟩, rfl, rfl, rfl, rfl, .inl rfl⟩ inv.sound trivial (.refl _)
  | pushing batch op =>
      rw [under] at fits
      simp only [under] at onward
      split at onward
      · next run =>
          obtain ⟨sound, _, produced⟩ := TryPush.step_fits inv.sound fits run
          cases onward
          exact inv.produced ⟨⟨rfl, rfl, rfl⟩, rfl, rfl, rfl, rfl, .inl rfl⟩ sound trivial produced
      · next run =>
          obtain ⟨sound, _, produced⟩ := TryPush.step_fits inv.sound fits run
          cases onward
          exact inv.produced ⟨⟨rfl, rfl, rfl⟩, rfl, rfl, rfl, rfl, .inl rfl⟩ sound trivial produced
      · next run =>
          obtain ⟨sound, fitting, produced⟩ := TryPush.step_fits inv.sound fits run
          cases onward
          exact inv.produced ⟨⟨rfl, rfl, rfl⟩, rfl, rfl, rfl, rfl, .inl rfl⟩ sound fitting produced
      · cases onward
  | counting batch =>
      simp only [under] at onward
      cases onward
      exact inv.produced ⟨⟨rfl, rfl, rfl⟩, rfl, rfl, rfl, rfl, .inl rfl⟩ inv.sound (loop_fits _) (.refl _)
  | dropping batch =>
      simp only [under] at onward
      cases onward
      exact inv.produced ⟨⟨rfl, rfl, rfl⟩, rfl, rfl, rfl, rfl, .inl rfl⟩ inv.sound (finish_fits _) (.refl _)
  | locking pushed =>
      simp only [under] at onward
      obtain ⟨locked, taken, rfl⟩ := Option.map_eq_some_iff.mp onward
      obtain ⟨_, rfl⟩ := lock_eq taken
      exact inv.produced ⟨⟨rfl, rfl, rfl⟩, rfl, rfl, rfl, rfl, .inl rfl⟩ inv.sound trivial (.refl _)
  | unlocking pushed =>
      simp only [under] at onward
      cases onward
      exact inv.produced ⟨⟨rfl, rfl, rfl⟩, rfl, rfl, rfl, rfl, .inl rfl⟩ inv.sound trivial (.refl _)
  | notifying pushed =>
      simp only [under] at onward
      cases onward
      exact inv.produced ⟨⟨rfl, rfl, rfl⟩, rfl, rfl, rfl, rfl, .inr rfl⟩ inv.sound trivial (.refl _)
  | returned pushed =>
      rw [under] at onward
      cases onward

end TickRing

end Gambit
