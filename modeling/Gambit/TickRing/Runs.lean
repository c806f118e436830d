import Mathlib
import Gambit.TickRing.ConsumerSteps

/-!
# Runs of the tick ring

The calls on leases, the release of a lease, and with them every step of the
machine: the invariant holds in every state that a run reaches.
-/

set_option autoImplicit false

open Machines

namespace Gambit

namespace TickRing

open SpscRing (TryPush TryPop Consume SpanRead Release ReadSpan Produced Consumed Sound)

variable {Record : Type} {ring ring' : SpscRing Record} {s t : State Record}

/-! ## Calls on a lease -/

/-- What the calls on leases never write. -/
structure LeaserFrame (s t : State Record) : Prop where
  producer : t.producer = s.producer
  consumer : t.consumer = s.consumer
  mutex : t.mutex = s.mutex
  closed : t.closed = s.closed
  closers : t.closers = s.closers
  monitors : t.monitors = s.monitors
  offered : t.offered = s.offered
  pushed : t.counters .pushed = s.counters .pushed
  dropped : t.counters .dropped = s.counters .dropped

/-- The leased records never change. -/
def Lease.place (lease : Lease) : ReadSpan × Nat := (lease.span, lease.origin)

structure LeaserEffect (s t : State Record) : Prop extends Effect s t where
  frame : LeaserFrame s t
  leases : t.leases.map Lease.place = s.leases.map Lease.place
  tail : t.ring.consumed = s.ring.consumed ∨
    ∃ (index : Nat) (lease : Lease), s.leases[index]? = some lease ∧ lease.ready = true ∧
      lease.Held s.ring ∧ t.ring.consumed = s.ring.consumed ++ s.ring.view lease.span
  published : t.ring.published = s.ring.published
  balanced : t.counters .popped + t.leaser.uncounted + UInt64.ofNat s.ring.consumed.length =
    s.counters .popped + s.leaser.uncounted + UInt64.ofNat t.ring.consumed.length

/-- A call on a lease touches its two lifetimes only, and does nothing to a
lease that is closed and without views. -/
structure LeaseChange (change : Lease → Option Lease) : Prop where
  same : ∀ {lease after : Lease}, change lease = some after →
    after = { lease with closeRequested := after.closeRequested, views := after.views }
  closed : ∀ {lease after : Lease}, change lease = some after → lease.closeRequested = true →
    lease.views = 0 → after = lease

theorem leaseChange_values : LeaseChange fun lease => lease.values.toOption where
  same := by
    intro lease after changed
    unfold Lease.values at changed
    split at changed
    · cases changed
    · cases changed
      rfl
  closed := by
    intro lease after changed closed _
    unfold Lease.values at changed
    rw [if_pos closed] at changed
    cases changed

theorem leaseChange_close : LeaseChange fun lease => some lease.close where
  same := by
    intro lease after changed
    cases changed
    rfl
  closed := by
    intro lease after changed closed _
    cases changed
    unfold Lease.close
    rw [← closed]

theorem leaseChange_viewClosed :
    LeaseChange fun lease => if lease.views = 0 then none else some lease.viewClosed where
  same := by
    intro lease after changed
    split at changed
    · cases changed
    · cases changed
      rfl
  closed := by
    intro lease after changed _ unviewed
    rw [if_pos unviewed] at changed
    cases changed

theorem leaseCall_eq {index : Nat} {change : Lease → Option Lease}
    (onward : s.leaseCall index change = some t) :
    s.leaser = .idle ∧ ∃ lease, s.leases[index]? = some lease ∧
      (t = s ∨ ∃ after, change lease = some after ∧ t = s.releaseIfReady index after) := by
  unfold State.leaseCall at onward
  split at onward
  · next lease quiet present =>
      refine ⟨quiet, lease, present, ?_⟩
      split at onward
      · next after changed => exact .inr ⟨after, changed, (Option.some.inj onward).symm⟩
      · exact .inl (Option.some.inj onward).symm
  · cases onward

/-- A call on a lease that has been given back has no effect. -/
theorem releaseIfReady_settled {index : Nat} {lease : Lease} (settled : lease.Settled ring)
    (quiet : s.leaser = .idle) (present : s.leases[index]? = some lease) :
    s.releaseIfReady index lease = s := by
  have idle : lease.ready = false := by
    unfold Lease.ready
    rw [settled.released]
    simp
  obtain ⟨inside, rfl⟩ := List.getElem?_eq_some_iff.mp present
  unfold State.releaseIfReady
  rw [idle, List.set_getElem_self]
  cases s
  cases quiet
  rfl

theorem leaserFrame (leaser : Leaser) (leases : List Lease) (ring : SpscRing Record) (active : Bool) :
    LeaserFrame s { s with ring, leaseActive := active, leases, leaser } :=
  ⟨rfl, rfl, rfl, rfl, rfl, rfl, rfl, rfl, rfl⟩

theorem LeaserEffect.refl (inv : s.Inv) : LeaserEffect s s :=
  ⟨⟨inv, .inl (.refl _), fun _ => rfl⟩, leaserFrame _ _ _ _, rfl, .inl rfl, rfl, rfl⟩

theorem set_last {α : Type} (xs : List α) (x y : α) :
    (xs ++ [x]).set xs.length y = xs ++ [y] := by
  simp

theorem modify_last {α : Type} (xs : List α) (x : α) (f : α → α) :
    (xs ++ [x]).modify xs.length f = xs ++ [f x] := by
  rw [List.modify_eq_set_getElem?, List.getElem?_concat_length]
  exact set_last xs x (f x)

theorem leaseCall_effect {index : Nat} {change : Lease → Option Lease} (inv : s.Inv)
    (lawful : LeaseChange change) (onward : s.leaseCall index change = some t) :
    LeaserEffect s t := by
  obtain ⟨quiet, lease, present, rfl | ⟨after, changed, rfl⟩⟩ := leaseCall_eq onward
  · exact .refl inv
  have settled_case (settled : lease.Settled s.ring) :
      LeaserEffect s (s.releaseIfReady index after) := by
    rw [lawful.closed changed settled.closed settled.unviewed,
      releaseIfReady_settled settled quiet present]
    exact .refl inv
  cases inv.phase with
  | free unleased _ _ => exact settled_case (unleased.settled _ (List.mem_of_getElem? present))
  | starting unleased _ _ =>
      exact settled_case (unleased.settled _ (List.mem_of_getElem? present))
  | pinned earlier last leased held _ used =>
      rw [leased.leases] at present
      by_cases before : index < earlier.length
      · rw [List.getElem?_append_left before] at present
        exact settled_case (leased.settled _ (List.mem_of_getElem? present))
      · obtain ⟨inside, _⟩ := List.getElem?_eq_some_iff.mp present
        rw [List.length_append, List.length_singleton] at inside
        have final : index = earlier.length := by omega
        subst final
        rw [List.getElem?_concat_length] at present
        cases present
        have same := lawful.same changed
        have heldAfter : after.Held s.ring := by
          rw [same]
          exact ⟨held.fits, held.origin, held.advances, held.unreleased⟩
        have pendingAfter : after.pending = lease.pending := by
          rw [same]
          rfl
        have leases : s.leases.set earlier.length after = earlier ++ [after] := by
          rw [leased.leases]
          exact set_last earlier lease after
        have leasedAfter : (s.releaseIfReady earlier.length after).Leased earlier after :=
          ⟨leased.active, leases, leased.settled, leased.role⟩
        refine ⟨⟨⟨inv.sound, inv.producer, inv.consumer, ?_⟩, .inl (.refl _), fun _ => ?_⟩,
          leaserFrame _ _ _ _, ?_, .inl rfl, rfl, ?_⟩
        · by_cases ready : after.ready = true
          · exact .releasing earlier after _ leasedAfter heldAfter (if_pos ready) ready
              ⟨rfl, heldAfter.fits⟩ nofun
          · exact .pinned earlier after leasedAfter heldAfter (if_neg ready)
              (Bool.eq_false_of_not_eq_true ready)
        · unfold State.reserved
          rw [leasedAfter.sum_pending, leased.sum_pending, pendingAfter]
          rfl
        · change (s.leases.set earlier.length after).map Lease.place = _
          rw [leases, leased.leases, List.map_append, List.map_append, same]
          rfl
        · have uncounted : (s.releaseIfReady earlier.length after).leaser.uncounted = 0 := by
            unfold State.releaseIfReady
            dsimp only
            split <;> rfl
          rw [uncounted, quiet]
          rfl
  | releasing earlier last op leased held under =>
      rw [quiet] at under
      cases under
  | crediting earlier last leased advanced under =>
      rw [quiet] at under
      cases under
  | clearing earlier last leased advanced under =>
      rw [quiet] at under
      cases under

/-! ## The release of a lease -/

theorem release_takes {span : ReadSpan} {op op' : Release} (sound : ring.Sound)
    (fits : op.Fits ring span) (run : op.step ring = some (ring', op')) :
    (op' = .returned ∧ ring'.consumed = ring.consumed ++ ring.view span ∧
        ring'.consumed.length = ring.consumed.length + span.count.toNat) ∨
      ring' = ring ∧ op' ≠ .returned := by
  cases op with
  | loadTail count =>
      cases run
      exact .inr ⟨rfl, by simp⟩
  | loadHead count tail =>
      simp only [Release.step] at run
      split at run
      · cases run
        exact .inr ⟨rfl, by simp⟩
      · cases run
        exact .inr ⟨rfl, by simp⟩
  | storeTail count tail =>
      obtain ⟨rfl, rfl, spans⟩ := fits
      cases run
      have seen := sound.view_tail spans.available spans.contiguous
      refine .inl ⟨rfl, ?_, ?_⟩
      · rw [SpscRing.storeTail, seen, spans.view sound]
        rfl
      · rw [SpscRing.storeTail, List.length_append, seen]
        exact congrArg _ (SpscRing.length_next spans.available)
  | returned => cases run
  | threw error => cases run

theorem Lease.Held.advance {lease : Lease} (held : lease.Held ring) (ready : lease.ready = true)
    (taken : ring'.consumed.length = ring.consumed.length + lease.span.count.toNat) :
    (lease.advance ring ring').Advanced ring' := by
  obtain ⟨closed, unviewed, unreleased⟩ := Lease.ready_iff.mp ready
  refine ⟨closed, unviewed, unreleased, ?_, ?_⟩
  · simp only [Lease.advance, held.advances, held.origin, taken]
    rfl
  · rw [taken]
    exact congrArg (fun n => n + lease.span.count.toNat) held.origin

/-- Nothing that the consumer has loaded outside its calls has to fit. -/
theorem outside_fits {consumer : Consumer Record} (outside : consumer.role = .outside) :
    consumer.Fits ring := by
  cases consumer with
  | accessing maximum => cases outside
  | depthHead taking maximum => cases outside
  | depthTail taking maximum head => cases outside
  | popping count output op => cases outside
  | popCounting count output => cases outside
  | processing count op => cases outside
  | processCounting count => cases outside
  | leasing op => cases outside
  | making span => cases outside
  | abandoning error => cases outside
  | _ => trivial

theorem leaserStep_effect (inv : s.Inv) (onward : s.leaserStep = some t) :
    LeaserEffect s t := by
  unfold State.leaserStep at onward
  cases inv.phase with
  | free unleased _ _ =>
      rw [unleased.quiet] at onward
      cases onward
  | starting unleased _ _ =>
      rw [unleased.quiet] at onward
      cases onward
  | pinned _ _ _ _ quiet _ =>
      rw [quiet] at onward
      cases onward
  | releasing earlier lease op leased held under ready fits =>
      simp only [under] at onward
      split at onward
      · next memory run =>
          obtain ⟨sound, _, consumed⟩ := Release.step_fits inv.sound fits run
          rcases release_takes inv.sound fits run with ⟨_, records, taken⟩ | ⟨_, other⟩
          · cases onward
            have advanced := held.advance ready taken
            have leases := (congrArg (fun leases => leases.modify earlier.length
              (Lease.advance s.ring memory)) leased.leases).trans
              (modify_last earlier lease (Lease.advance s.ring memory))
            refine ⟨⟨⟨sound, inv.producer.stable consumed, ?_, ?_⟩, .inr consumed, fun _ => ?_⟩,
              leaserFrame _ _ _ _, ?_, .inr ⟨_, lease, leased.getElem?, ready, held, records⟩,
              consumed.published, ?_⟩
            · exact outside_fits leased.role
            · refine .crediting earlier (lease.advance s.ring memory)
                ⟨leased.active, leases, ?_, leased.role⟩ advanced rfl
              exact fun other member =>
                (leased.settled other member).later consumed.consumed.length_le
            · have settled : (earlier.map Lease.pending).sum = 0 :=
                sum_pending_settled leased.settled
              have before : (s.leases.map Lease.pending).sum = lease.span.count.toNat :=
                leased.sum_pending.trans held.pending
              unfold State.reserved
              rw [before]
              simp only
              rw [leases, List.map_append, List.sum_append, settled, taken]
              simp only [List.map_cons, List.map_nil, List.sum_singleton, advanced.pending]
              omega
            · change (s.leases.modify _ _).map Lease.place = _
              rw [leases, leased.leases, List.map_append, List.map_append]
              rfl
            · rw [under, taken, UInt64.ofNat_add, UInt64.ofNat_toNat]
              exact balance_of_taken _ _ _
          · exact absurd rfl other
      · next run =>
          obtain ⟨_, no, _⟩ := Release.step_fits inv.sound fits run
          exact no.elim
      · next unreturned _ run =>
          obtain ⟨_, fitting, _⟩ := Release.step_fits inv.sound fits run
          rcases release_takes inv.sound fits run with ⟨whole, _⟩ | ⟨rfl, _⟩
          · exact absurd whole unreturned
          · cases onward
            refine ⟨⟨⟨inv.sound, inv.producer, inv.consumer, ?_⟩, .inl (.refl _), fun _ => rfl⟩,
              leaserFrame _ _ _ _, rfl, .inl rfl, rfl, ?_⟩
            · exact .releasing earlier lease _
                ⟨leased.active, leased.leases, leased.settled, leased.role⟩ held rfl ready fitting
                unreturned
            · rw [under]
              rfl
      · cases onward
  | crediting earlier lease leased advanced under =>
      simp only [under] at onward
      cases onward
      refine ⟨⟨⟨inv.sound, inv.producer, inv.consumer, ?_⟩, .inl (.refl _), fun _ => rfl⟩,
        ⟨rfl, rfl, rfl, rfl, rfl, rfl, rfl, rfl, rfl⟩, rfl, .inl rfl, rfl, ?_⟩
      · exact .clearing earlier lease ⟨leased.active, leased.leases, leased.settled, leased.role⟩
          advanced rfl
      · rw [under]
        simp only [State.add, Function.update_self, Leaser.uncounted]
        rw [add_zero]
  | clearing earlier lease leased advanced under =>
      simp only [under] at onward
      cases onward
      have leases : s.leases.modify earlier.length (fun lease => { lease with released := true }) =
          earlier ++ [{ lease with released := true }] := by
        rw [leased.leases]
        exact modify_last earlier lease _
      have settled : ∀ other ∈ s.leases.modify earlier.length
          (fun lease => { lease with released := true }), other.Settled s.ring := by
        rw [leases]
        intro other member
        rcases List.mem_append.mp member with old | new
        · exact leased.settled other old
        · cases List.mem_singleton.mp new
          exact ⟨advanced.closed, advanced.unviewed, rfl, advanced.advanced, advanced.passed.le⟩
      refine ⟨⟨⟨inv.sound, inv.producer, inv.consumer, ?_⟩, .inl (.refl _), fun _ => ?_⟩,
        leaserFrame _ _ _ _, ?_, .inl rfl, rfl, by rw [under]; rfl⟩
      · refine .free ⟨rfl, settled⟩ rfl ?_
        change s.consumer.role ≠ _
        rw [leased.role]
        simp
      · unfold State.reserved
        rw [leased.sum_pending, advanced.pending]
        exact congrArg _ (sum_pending_settled settled)
      · change (s.leases.modify _ _).map Lease.place = _
        rw [leases, leased.leases, List.map_append, List.map_append]
        rfl

/-! ## Close calls and monitors -/

/-- The shared part that neither a close call nor a monitor writes. -/
structure AsideFrame (s t : State Record) : Prop extends SameLeases s t where
  ring : t.ring = s.ring
  counters : t.counters = s.counters
  offered : t.offered = s.offered
  producer : t.producer = s.producer
  consumer : t.consumer = s.consumer ∨ t.consumer = s.consumer.wake

structure AsideEffect (s t : State Record) : Prop extends Effect s t where
  frame : AsideFrame s t

theorem State.Inv.aside (inv : s.Inv) (frame : AsideFrame s t) : AsideEffect s t := by
  obtain ⟨role, pending, _, still⟩ := woken_eq s.ring frame.consumer
  have unchanged : Produced s.ring t.ring := by
    rw [frame.ring]
    exact .refl _
  refine ⟨⟨⟨?_, ?_, ?_, ?_⟩, .inl unchanged, ?_⟩, frame⟩
  · rw [frame.ring]
    exact inv.sound
  · rw [frame.ring, frame.producer]
    exact inv.producer
  · rw [frame.ring]
    exact still inv.consumer
  · exact inv.phase.moved frame.toSameLeases unchanged (.inl role)
  · intro _
    unfold State.reserved
    rw [frame.ring, frame.leases, pending]

theorem closerStep_effect {i : Nat} (inv : s.Inv) (onward : s.closerStep i = some t) :
    AsideEffect s t ∧ t.monitors = s.monitors := by
  unfold State.closerStep at onward
  split at onward
  · cases onward
  · obtain ⟨locked, taken, rfl⟩ := Option.map_eq_some_iff.mp onward
    obtain ⟨_, rfl⟩ := lock_eq taken
    exact ⟨inv.aside ⟨⟨rfl, rfl, rfl⟩, rfl, rfl, rfl, rfl, .inl rfl⟩, rfl⟩
  · cases onward
    exact ⟨inv.aside ⟨⟨rfl, rfl, rfl⟩, rfl, rfl, rfl, rfl, .inl rfl⟩, rfl⟩
  · cases onward
    exact ⟨inv.aside ⟨⟨rfl, rfl, rfl⟩, rfl, rfl, rfl, rfl, .inl rfl⟩, rfl⟩
  · cases onward
    exact ⟨inv.aside ⟨⟨rfl, rfl, rfl⟩, rfl, rfl, rfl, rfl, .inr rfl⟩, rfl⟩
  · cases onward

theorem monitorStep_eq {i : Nat} (onward : s.monitorStep i = some t) :
    ∃ monitor, t = s.setMonitor i monitor := by
  unfold State.monitorStep at onward
  split at onward
  · cases onward
  · exact ⟨_, (Option.some.inj onward).symm⟩
  · exact ⟨_, (Option.some.inj onward).symm⟩
  · split at onward
    · exact ⟨_, (Option.some.inj onward).symm⟩
    · exact ⟨_, (Option.some.inj onward).symm⟩
  · exact ⟨_, (Option.some.inj onward).symm⟩
  · exact ⟨_, (Option.some.inj onward).symm⟩
  · cases onward
  · cases onward

theorem setMonitor_effect (inv : s.Inv) (i : Nat) (monitor : Monitor) :
    AsideEffect s (s.setMonitor i monitor) :=
  inv.aside ⟨⟨rfl, rfl, rfl⟩, rfl, rfl, rfl, rfl, .inl rfl⟩

theorem setCloser_effect (inv : s.Inv) (i : Nat) (closer : Closer) :
    AsideEffect s (s.setCloser i closer) :=
  inv.aside ⟨⟨rfl, rfl, rfl⟩, rfl, rfl, rfl, rfl, .inl rfl⟩

/-! ## All steps -/

theorem free_outside {consumer : Consumer Record} (free : consumer.free = true) :
    consumer.role = .outside ∧ consumer.pending = 0 := by
  cases consumer with
  | idle => exact ⟨rfl, rfl⟩
  | returned result => exact ⟨rfl, rfl⟩
  | _ => cases free

/-- The thread that makes the step, and what it does. -/
inductive Move (s t : State Record) : Prop where
  | producer (effect : ProducerEffect s t)
      (step : s.producerStep = some t ∨ s.producer.free = true ∧ ∃ records : List Record,
        t = { s with
          producer := Batch.loop ⟨records, 0⟩
          offered := s.offered + records.length })
  | consumer (effect : ConsumerEffect s t)
  | leaser (effect : LeaserEffect s t)
  | closer (i : Nat) (effect : AsideEffect s t) (same : t.monitors = s.monitors)
      (step : s.closerStep i = some t ∨ (s.closers i).free = true ∧ t = s.setCloser i .locking)
  | monitor (i : Nat) (effect : AsideEffect s t)
      (step : s.monitorStep i = some t ∨
        ∃ metrics, (s.monitors i).free = true ∧ t = s.setMonitor i (.depthHead metrics))

theorem Move.effect (move : Move s t) : Effect s t := by
  cases move with
  | producer effect => exact effect.toEffect
  | consumer effect => exact effect.toEffect
  | leaser effect => exact effect.toEffect
  | closer i effect => exact effect.toEffect
  | monitor i effect => exact effect.toEffect

/-- A call of the consumer, which has nothing under way. -/
theorem call_effect {consumer : Consumer Record} (inv : s.Inv) (outside : consumer.Outside)
    (onward : (if s.consumer.free then some { s with consumer } else none) = some t) :
    ConsumerEffect s t := by
  split at onward
  · next free =>
      cases onward
      obtain ⟨before, nothing⟩ := free_outside free
      exact inv.moved_outside (quiet_consumer _ _) before nothing outside
  · cases onward

theorem processorBusy_effect (inv : s.Inv) (onward : s.processorBusy = some t) :
    ConsumerEffect s t := by
  unfold State.processorBusy at onward
  split at onward
  · next under =>
      cases onward
      exact inv.moved_inside (quiet_consumer _ _) trivial
        (roleStep_of_taking (by rw [under]; rfl) (.inr rfl)) (by rw [under]; rfl)
        (fun _ => by rw [under]; rfl)
  · cases onward

theorem leaseThrows_effect {error : String} (inv : s.Inv)
    (onward : s.leaseThrows error = some t) : ConsumerEffect s t := by
  unfold State.leaseThrows at onward
  split at onward
  · next under =>
      cases onward
      exact inv.moved_inside (quiet_consumer _ _) trivial (.inl (by rw [under]; rfl))
        (by rw [under]; rfl) (fun _ => by rw [under]; rfl)
  · cases onward

theorem unblock_effect {timedOut : Bool} (inv : s.Inv) (onward : s.unblock timedOut = some t) :
    ConsumerEffect s t := by
  unfold State.unblock at onward
  split at onward
  · next under =>
      cases onward
      exact inv.moved_outside (quiet_consumer _ _) (by rw [under]; rfl) (by rw [under]; rfl)
        ⟨rfl, rfl, rfl, fun _ => trivial⟩
  · cases onward

theorem step_move [Inhabited Record] {action : Action Record} (inv : s.Inv)
    (onward : s.step action = some t) : Move s t := by
  cases action with
  | pushBatch records =>
      simp only [State.step] at onward
      split at onward
      · next free =>
          cases onward
          refine .producer ?_ (.inr ⟨free, records, rfl⟩)
          exact inv.produced ⟨⟨rfl, rfl, rfl⟩, rfl, rfl, rfl, rfl, .inl rfl⟩ inv.sound
            (loop_fits _) (.refl _)
      · cases onward
  | producer => exact .producer (producerStep_effect inv onward) (.inl onward)
  | call call => exact .consumer (call_effect inv (outside_enter call) onward)
  | wait w => exact .consumer (call_effect inv (outside_wait w) onward)
  | consumer => exact .consumer (consumerStep_effect inv onward)
  | processorBusy => exact .consumer (processorBusy_effect inv onward)
  | leaseThrows error => exact .consumer (leaseThrows_effect inv onward)
  | unblock timedOut => exact .consumer (unblock_effect inv onward)
  | values index => exact .leaser (leaseCall_effect inv leaseChange_values onward)
  | closeLease index => exact .leaser (leaseCall_effect inv leaseChange_close onward)
  | viewClosed index => exact .leaser (leaseCall_effect inv leaseChange_viewClosed onward)
  | leaser => exact .leaser (leaserStep_effect inv onward)
  | close i =>
      simp only [State.step] at onward
      split at onward
      · next free =>
          cases onward
          exact .closer i (setCloser_effect inv i .locking) rfl (.inr ⟨free, rfl⟩)
      · cases onward
  | closer i =>
      obtain ⟨effect, same⟩ := closerStep_effect inv onward
      exact .closer i effect same (.inl onward)
  | monitor i =>
      have effect : AsideEffect s t := by
        obtain ⟨monitor, rfl⟩ := monitorStep_eq onward
        exact setMonitor_effect inv i monitor
      exact .monitor i effect (.inl onward)
  | observe i metrics =>
      simp only [State.step] at onward
      split at onward
      · next free =>
          cases onward
          exact .monitor i (setMonitor_effect inv i _) (.inr ⟨metrics, free, rfl⟩)
      · cases onward

theorem inv_start (sound : ring.Sound) : (State.start ring).Inv where
  sound := sound
  producer := trivial
  consumer := trivial
  phase := .free ⟨rfl, nofun⟩ rfl nofun

/-- An invariant beside the one of the phases holds along every run. -/
theorem reaches_invariant [Inhabited Record] {P : State Record → Prop} (start : s.Inv)
    (initial : P s) (preserved : ∀ r r' : State Record, r.Inv → P r → Move r r' → P r')
    (run : Reaches State.step s t) : t.Inv ∧ P t := by
  refine run.invariant (P := fun r => r.Inv ∧ P r) ⟨start, initial⟩ ?_
  intro r action r' held onward
  have move := step_move held.1 onward
  exact ⟨move.effect.inv, preserved r r' held.1 held.2 move⟩

theorem inv_of_reaches [Inhabited Record] {maxSize capacity : UInt64}
    (created : SpscRing.new maxSize capacity = .ok ring)
    (run : Reaches State.step (State.start ring) s) : s.Inv :=
  (reaches_invariant (P := fun _ => True) (inv_start (SpscRing.new_sound created).1) trivial
    (fun _ _ _ _ _ => trivial) run).1

end TickRing

end Gambit
