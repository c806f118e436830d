import Mathlib
import Gambit.TickRing.PhaseSteps

/-!
# The consumer's steps and the release of a lease

Between the check for a lease and the end of its call the consumer is alone at
the tail of the ring: it decides how many records it takes from a head loaded
before, and takes exactly those.  The thread that gives a lease back is alone
there from the close of the lease until the flag is cleared.
-/

set_option autoImplicit false

open CircularWindow Machines

namespace Gambit

namespace TickRing

open SpscRing (TryPush TryPop Consume SpanRead Release ReadSpan Produced Consumed Sound)

variable {Record : Type} {ring ring' : SpscRing Record} {s t : State Record}

/-! ## What an operation of the consumer takes -/

/-- A pop that has at least one record ahead of it does not fail, and takes one
record in the step that returns it. -/
theorem tryPop_takes [Inhabited Record] {op op' : TryPop Record} (sound : ring.Sound)
    (fits : op.Fits ring) (available : ring.consumed.length + 1 ≤ ring.published.length)
    (run : op.step ring = some (ring', op')) :
    (∃ record, op' = .returned (some record) ∧
        ring'.consumed.length = ring.consumed.length + 1) ∨
      ring' = ring ∧ ∀ record, op' ≠ .returned record := by
  cases op with
  | loadTail =>
      cases run
      exact .inr ⟨rfl, by simp⟩
  | loadHead tail =>
      cases fits
      have nonempty : ring.tail ≠ ring.head := by
        intro empty
        have same := sound.empty_iff.mp empty
        omega
      simp only [TryPop.step] at run
      rw [if_neg nonempty] at run
      cases run
      exact .inr ⟨rfl, by simp⟩
  | readSlot tail =>
      cases run
      exact .inr ⟨rfl, by simp⟩
  | storeTail tail record =>
      cases run
      exact .inl ⟨record, rfl, List.length_append⟩
  | returned record => cases run

/-- `consume` of records that are there takes all of them at once. -/
theorem consume_takes [Inhabited Record] {op op' : Consume Record} {count : UInt64}
    (sound : ring.Sound) (fits : op.Fits ring) (takes : Takes count op)
    (available : ring.consumed.length + count.toNat ≤ ring.published.length)
    (run : op.step ring = some (ring', op')) :
    (op' = .returned count ∧
        ring'.consumed.length = ring.consumed.length + count.toNat) ∨
      ring' = ring ∧ Takes count op' := by
  have loop (tail : UInt64) (read : List Record) : Takes count (Consume.loop tail count read) := by
    unfold Consume.loop
    split <;> rfl
  cases op with
  | loadTail maximum =>
      cases run
      exact .inr ⟨rfl, takes⟩
  | loadHead maximum tail =>
      cases fits
      cases takes
      have enough : ¬ ring.head - ring.tail < count := by
        apply UInt64.not_lt.mpr
        apply UInt64.le_iff_toNat_le.mpr
        rw [sound.toNat_depth]
        omega
      simp only [Consume.step] at run
      rw [if_neg enough] at run
      cases run
      exact .inr ⟨rfl, loop _ _⟩
  | readSlots tail chosen read =>
      cases takes
      cases run
      exact .inr ⟨rfl, loop _ _⟩
  | storeTail tail chosen read =>
      obtain ⟨_, _, whole⟩ := fits
      cases takes
      cases run
      refine .inl ⟨rfl, ?_⟩
      rw [SpscRing.storeTail, List.length_append, whole, SpscRing.length_next available]
  | returned chosen => cases run

/-- The count that `pop_batch` and `process_batch` decide on is available, also
if more has been published since the head was loaded. -/
theorem decided_available {n : Nat} (maximum : UInt64) (sound : ring.Sound)
    (above : ring.consumed.length ≤ n) (below : n ≤ ring.published.length) :
    ring.consumed.length +
        (if UInt64.ofNat n - ring.tail < maximum then UInt64.ofNat n - ring.tail
          else maximum).toNat ≤ n := by
  have near := sound.near
  rw [SpscRing.toNat_ite_lt, sound.tail, toNat_ofNat_sub_ofNat above (by omega)]
  omega

theorem decided_fits (taking : Taking) {count : UInt64}
    (available : ring.consumed.length + count.toNat ≤ ring.published.length) :
    (taking.decided count).Fits ring := by
  cases taking with
  | popBatch =>
      simp only [Taking.decided]
      split
      · trivial
      · exact popLoop_fits available
  | processBatch => exact ⟨trivial, rfl, available⟩

theorem decided_role (taking : Taking) (count : UInt64) :
    (taking.decided count : Consumer Record).role = .taking ∨
      (taking.decided count : Consumer Record).role = .outside := by
  cases taking with
  | popBatch =>
      simp only [Taking.decided]
      split
      · exact .inr rfl
      · exact popLoop_role _ _
  | processBatch => exact .inl rfl

theorem decided_uncounted (taking : Taking) (count : UInt64) :
    (taking.decided count : Consumer Record).uncounted = 0 := by
  cases taking with
  | popBatch =>
      simp only [Taking.decided]
      split
      · rfl
      · exact popLoop_uncounted count []
  | processBatch => rfl

/-! ## The consumer -/

/-- What was taken and is not counted yet. -/
theorem balance_of_taken (counted tail taken : UInt64) :
    counted + taken + tail = counted + 0 + (tail + taken) := by
  rw [add_zero, add_assoc, add_comm taken]

/-- A step of the consumer at the tail of the ring; no lease exists. -/
theorem State.Inv.consumed (inv : s.Inv) (taking : s.consumer.role = .taking)
    (beside : Beside s t) (same : SameLeases s t) (sound : t.ring.Sound)
    (consumed : Consumed s.ring t.ring) (fits : t.consumer.Fits t.ring)
    (role : t.consumer.role ≠ .leasing)
    (pending : t.ring.consumed.length + t.consumer.pending =
      s.ring.consumed.length + s.consumer.pending)
    (balanced : Balanced s t) : ConsumerEffect s t := by
  refine ⟨⟨⟨sound, ?_, fits, ?_⟩, .inr consumed, ?_⟩, beside, consumed.published,
    by rw [same.leases], .inr taking, balanced⟩
  · rw [beside.producer]
    exact inv.producer.stable consumed
  · cases inv.phase with
    | free unleased inactive _ =>
        exact .free (unleased.moved same consumed.consumed.length_le)
          (same.active.trans inactive) role
    | starting _ _ leasing =>
        rw [taking] at leasing
        cases leasing
    | pinned earlier lease leased =>
        have outside := leased.role
        rw [taking] at outside
        cases outside
    | releasing earlier lease op leased =>
        have outside := leased.role
        rw [taking] at outside
        cases outside
    | crediting earlier lease leased =>
        have outside := leased.role
        rw [taking] at outside
        cases outside
    | clearing earlier lease leased =>
        have outside := leased.role
        rw [taking] at outside
        cases outside
  · intro _
    unfold State.reserved
    rw [pending, same.leases]

theorem popLoop_role_ne (count : UInt64) (output : List Record) :
    (popLoop count output).role ≠ .leasing := by
  rcases popLoop_role count output with taking | outside
  · rw [taking]
    nofun
  · rw [outside]
    nofun

/-- The role after a step that stays inside the call or ends it. -/
theorem roleStep_of_taking (taking : s.consumer.role = .taking)
    (role : t.consumer.role = .taking ∨ t.consumer.role = .outside) : RoleStep s t := by
  rcases role with stays | ends
  · exact .inl (stays.trans taking.symm)
  · refine .inr (.inl ⟨?_, ends⟩)
    rw [taking]
    nofun

/-- While a lease is being made no other lease exists. -/
theorem State.Phase.unleased_of_leasing (phase : s.Phase) (leasing : s.consumer.role = .leasing) :
    s.Unleased ∧ s.leaseActive = true := by
  have inside {earlier : List Lease} {lease : Lease} (leased : s.Leased earlier lease) : False := by
    have outside := leased.role
    rw [leasing] at outside
    cases outside
  cases phase with
  | free _ _ role => exact absurd leasing role
  | starting unleased active _ => exact ⟨unleased, active⟩
  | pinned earlier lease leased => exact (inside leased).elim
  | releasing earlier lease op leased => exact (inside leased).elim
  | crediting earlier lease leased => exact (inside leased).elim
  | clearing earlier lease leased => exact (inside leased).elim

theorem State.Phase.unleased_of_inactive (phase : s.Phase) (inactive : s.leaseActive = false) :
    s.Unleased := by
  have inside (active : s.leaseActive = true) : False := by
    rw [inactive] at active
    cases active
  cases phase with
  | free unleased _ _ => exact unleased
  | starting _ active _ => exact (inside active).elim
  | pinned earlier lease leased => exact (inside leased.active).elim
  | releasing earlier lease op leased => exact (inside leased.active).elim
  | crediting earlier lease leased => exact (inside leased.active).elim
  | clearing earlier lease leased => exact (inside leased.active).elim

/-- A new lease over the span that was read. -/
def Lease.made (ring : SpscRing Record) (span : ReadSpan) : Lease :=
  ⟨span, 0, false, false, ring.consumed.length, []⟩

theorem making_effect {span : ReadSpan} (inv : s.Inv) (under : s.consumer = .making span) :
    ConsumerEffect s { s with
      leases := s.leases ++ [Lease.made s.ring span]
      consumer := .returned (.ok (.lease s.leases.length)) } := by
  have fits := inv.consumer
  rw [under] at fits
  have role : s.consumer.role = .leasing := by rw [under]; rfl
  obtain ⟨unleased, active⟩ := inv.phase.unleased_of_leasing role
  refine ⟨⟨⟨inv.sound, inv.producer, trivial, ?_⟩, .inl (.refl _), ?_⟩,
    ⟨rfl, rfl, rfl, rfl, rfl, rfl, rfl, rfl⟩, rfl, List.prefix_append _ _, .inl rfl,
    by unfold Balanced; rw [under]; rfl⟩
  · exact .pinned s.leases (Lease.made s.ring span) ⟨active, rfl, unleased.settled, rfl⟩
      ⟨fits, rfl, rfl, rfl⟩ unleased.quiet rfl
  · intro undecided
    rw [under] at undecided
    cases undecided

theorem consumerStep_effect [Inhabited Record] (inv : s.Inv) (onward : s.consumerStep = some t) :
    ConsumerEffect s t := by
  have fits := inv.consumer
  unfold State.consumerStep at onward
  cases under : s.consumer with
  | idle =>
      rw [under] at onward
      cases onward
  | dataHead w site =>
      simp only [under] at onward
      cases onward
      exact inv.moved_outside (quiet_consumer _ _) (by rw [under]; rfl) (by rw [under]; rfl)
        ⟨rfl, rfl, rfl, fun _ => trivial⟩
  | dataTail w site head =>
      simp only [under] at onward
      split at onward
      · cases onward
        exact inv.moved_outside (quiet_consumer _ _) (by rw [under]; rfl)
          (by rw [under]; rfl) (outside_onward site true)
      · cases onward
        exact inv.moved_outside (quiet_consumer _ _) (by rw [under]; rfl)
          (by rw [under]; rfl) ⟨rfl, rfl, rfl, fun _ => trivial⟩
  | dataClosed w site =>
      simp only [under] at onward
      cases onward
      exact inv.moved_outside (quiet_consumer _ _) (by rw [under]; rfl) (by rw [under]; rfl)
        (outside_onward site _)
  | spinning w attempt =>
      simp only [under] at onward
      cases onward
      refine inv.moved_outside (quiet_add _ nofun nofun nofun) (by rw [under]; rfl)
        (by rw [under]; rfl) ?_
      change Consumer.Outside (if _ then _ else _)
      split
      · exact ⟨rfl, rfl, rfl, fun _ => trivial⟩
      · exact outside_spinLoop _
  | yielding w attempt =>
      simp only [under] at onward
      cases onward
      exact inv.moved_outside (quiet_add _ nofun nofun nofun) (by rw [under]; rfl) (by rw [under]; rfl)
        (outside_spinLoop _)
  | backingOff w attempt =>
      simp only [under] at onward
      cases onward
      exact inv.moved_outside (quiet_add _ nofun nofun nofun) (by rw [under]; rfl) (by rw [under]; rfl)
        (outside_backoffLoop _)
  | parking w =>
      simp only [under] at onward
      cases onward
      exact inv.moved_outside (quiet_add _ nofun nofun nofun) (by rw [under]; rfl) (by rw [under]; rfl)
        ⟨rfl, rfl, rfl, fun _ => trivial⟩
  | locking w =>
      simp only [under] at onward
      obtain ⟨locked, taken, rfl⟩ := Option.map_eq_some_iff.mp onward
      obtain ⟨_, rfl⟩ := lock_eq taken
      exact inv.moved_outside (quiet_consumer _ _) (by rw [under]; rfl) (by rw [under]; rfl)
        (outside_dataHead w _)
  | blocking w =>
      simp only [under] at onward
      cases onward
      exact inv.moved_outside (quiet_consumer _ _) (by rw [under]; rfl) (by rw [under]; rfl)
        ⟨rfl, rfl, rfl, fun _ => trivial⟩
  | blocked w =>
      rw [under] at onward
      cases onward
  | relocking w timedOut =>
      simp only [under] at onward
      obtain ⟨locked, taken, rfl⟩ := Option.map_eq_some_iff.mp onward
      obtain ⟨_, rfl⟩ := lock_eq taken
      exact inv.moved_outside (quiet_consumer _ _) (by rw [under]; rfl) (by rw [under]; rfl)
        (outside_dataHead w _)
  | counting w awakened =>
      simp only [under] at onward
      cases onward
      have quiet : Quiet s { s.add (if awakened then .wakeups else .parkTimeouts) 1 with
          consumer := .unlocking w } := by
        cases awakened
        · exact quiet_add _ nofun nofun nofun
        · exact quiet_add _ nofun nofun nofun
      exact inv.moved_outside quiet (by rw [under]; rfl) (by rw [under]; rfl)
        ⟨rfl, rfl, rfl, fun _ => trivial⟩
  | unlocking w =>
      simp only [under] at onward
      cases onward
      exact inv.moved_outside (quiet_consumer _ _) (by rw [under]; rfl) (by rw [under]; rfl)
        (outside_enter w.call)
  | rejecting taking maximum =>
      have outside : s.consumer.role = .outside := by rw [under]; rfl
      have other : s.consumer.role ≠ .leasing := by rw [outside]; nofun
      simp only [under] at onward
      split at onward
      · cases onward
        exact inv.moved_outside (quiet_consumer _ _) outside (by rw [under]; rfl)
          ⟨rfl, rfl, rfl, fun _ => trivial⟩
      · next free =>
          have inactive : s.leaseActive = false := Bool.eq_false_of_not_eq_true free
          cases taking with
          | popBatch =>
              cases onward
              exact inv.moved_inside (quiet_consumer _ _) trivial
                (.inr (.inr ⟨other, inactive, rfl⟩)) (by rw [under]; rfl) (fun _ => by rw [under]; rfl)
          | processBatch =>
              cases onward
              exact inv.moved_inside (quiet_consumer _ _) trivial
                (.inr (.inr ⟨other, inactive, rfl⟩)) (by rw [under]; rfl) (fun _ => by rw [under]; rfl)
  | accessing maximum =>
      simp only [under] at onward
      cases onward
      exact inv.moved_inside (quiet_consumer _ _) trivial (.inl (by rw [under]; rfl))
        (by rw [under]; rfl) (fun _ => by rw [under]; rfl)
  | depthHead taking maximum =>
      simp only [under] at onward
      cases onward
      exact inv.moved_inside (quiet_consumer _ _)
        ⟨_, inv.sound.head, inv.sound.ordered, Nat.le_refl _⟩ (.inl (by rw [under]; rfl))
        (by rw [under]; rfl) (fun _ => by rw [under]; rfl)
  | depthTail taking maximum head =>
      rw [under] at fits
      obtain ⟨n, rfl, above, below⟩ := fits
      have available := (decided_available maximum inv.sound above below).trans below
      have role : s.consumer.role = .taking := by rw [under]; rfl
      have decides : s.consumer.decides = true := by rw [under]; rfl
      have decided : s.consumer.decides = false → ∀ P : Prop, P := by
        intro undecided
        rw [decides] at undecided
        cases undecided
      simp only [under] at onward
      cases onward
      exact inv.moved_inside (quiet_consumer _ _) (decided_fits taking available)
        (roleStep_of_taking role (decided_role taking _))
        (by rw [under]; exact decided_uncounted taking _) (fun undecided => decided undecided _)
  | popping count output op =>
      rw [under] at fits
      obtain ⟨fitting, unread, available⟩ := fits
      have role : s.consumer.role = .taking := by rw [under]; rfl
      have pending : s.consumer.pending = count.toNat - output.length := by rw [under]; rfl
      simp only [under] at onward
      split at onward
      · next record run =>
          obtain ⟨sound, _, consumed⟩ := TryPop.step_fits inv.sound fitting run
          rcases tryPop_takes inv.sound fitting (by omega) run with ⟨_, _, taken⟩ | ⟨_, other⟩
          · cases onward
            refine inv.consumed role ⟨rfl, rfl, rfl, rfl, rfl, rfl, rfl, rfl⟩ ⟨rfl, rfl, rfl⟩ sound
              consumed ?_ nofun ?_ ?_
            · change _ + (count.toNat - (output ++ [_]).length) ≤ _
              rw [consumed.published, taken, List.length_append, List.length_singleton]
              omega
            · change _ + (count.toNat - (output ++ [_]).length) = _
              rw [pending, taken, List.length_append, List.length_singleton]
              omega
            · unfold Balanced
              rw [under, taken, UInt64.ofNat_add]
              exact balance_of_taken _ _ 1
          · exact absurd rfl (other _)
      · next run =>
          rcases tryPop_takes inv.sound fitting (by omega) run with ⟨_, returned, _⟩ | ⟨_, other⟩
          · cases returned
          · exact absurd rfl (other _)
      · next after unreturned _ run =>
          obtain ⟨sound, fitting', consumed⟩ := TryPop.step_fits inv.sound fitting run
          rcases tryPop_takes inv.sound fitting (by omega) run with ⟨_, returned, _⟩ | ⟨rfl, _⟩
          · exact absurd returned (unreturned _)
          · cases onward
            exact inv.moved_inside (quiet_consumer _ _) ⟨fitting', unread, available⟩
              (.inl (by rw [under]; rfl)) (by rw [under]; rfl) (fun _ => by rw [pending]; rfl)
      · cases onward
  | popCounting count output =>
      rw [under] at fits
      simp only [under] at onward
      cases onward
      have role : s.consumer.role = .taking := by rw [under]; rfl
      refine inv.moved (still_add _ nofun nofun) (popLoop_fits fits)
        (roleStep_of_taking role (popLoop_role _ _)) ?_ fun _ => ?_
      · unfold Balanced
        rw [under]
        simp only [State.add, Function.update_self, popLoop_uncounted]
        rw [add_zero]
        rfl
      · rw [under]
        exact popLoop_pending count output
  | processing count op =>
      rw [under] at fits
      obtain ⟨fitting, takes, available⟩ := fits
      have role : s.consumer.role = .taking := by rw [under]; rfl
      have pending : s.consumer.pending = count.toNat := by rw [under]; rfl
      simp only [under] at onward
      split at onward
      · next run =>
          obtain ⟨sound, _, consumed⟩ := Consume.step_fits inv.sound fitting run
          rcases consume_takes inv.sound fitting takes available run with ⟨whole, taken⟩ | ⟨_, no⟩
          · cases whole
            rw [if_neg (not_not.mpr rfl)] at onward
            cases onward
            refine inv.consumed role ⟨rfl, rfl, rfl, rfl, rfl, rfl, rfl, rfl⟩ ⟨rfl, rfl, rfl⟩ sound
              consumed trivial nofun ?_ ?_
            · rw [pending]
              exact taken
            · unfold Balanced
              rw [under, taken, UInt64.ofNat_add, UInt64.ofNat_toNat]
              exact balance_of_taken _ _ count
          · exact no.elim
      · next unreturned run =>
          obtain ⟨sound, fitting', consumed⟩ := Consume.step_fits inv.sound fitting run
          rcases consume_takes inv.sound fitting takes available run with ⟨whole, _⟩ | ⟨rfl, still⟩
          · exact absurd whole (unreturned _)
          · cases onward
            exact inv.moved_inside (quiet_consumer _ _) ⟨fitting', still, available⟩
              (.inl (by rw [under]; rfl)) (by rw [under]; rfl) (fun _ => by rw [pending]; rfl)
      · cases onward
  | processCounting count =>
      simp only [under] at onward
      cases onward
      refine inv.moved (still_add _ nofun nofun) trivial
        (roleStep_of_taking (by rw [under]; rfl) (.inr rfl)) ?_ (fun _ => by rw [under]; rfl)
      unfold Balanced
      rw [under]
      simp only [State.add, Function.update_self, Consumer.uncounted]
      rw [add_zero]
  | exchanging maximum =>
      have outside : s.consumer.role = .outside := by rw [under]; rfl
      simp only [under] at onward
      split at onward
      · cases onward
        exact inv.moved_outside (quiet_consumer _ _) outside (by rw [under]; rfl)
          ⟨rfl, rfl, rfl, fun _ => trivial⟩
      · next free =>
          have unleased := inv.phase.unleased_of_inactive (Bool.eq_false_of_not_eq_true free)
          cases onward
          refine ⟨⟨⟨inv.sound, inv.producer, trivial, ?_⟩, .inl (.refl _), fun _ => ?_⟩,
            ⟨rfl, rfl, rfl, rfl, rfl, rfl, rfl, rfl⟩, rfl, List.prefix_rfl, .inl rfl,
            by unfold Balanced; rw [under]; rfl⟩
          · exact .starting ⟨unleased.quiet, unleased.settled⟩ rfl rfl
          · unfold State.reserved
            rw [under]
            rfl
  | leasing op =>
      rw [under] at fits
      simp only [under] at onward
      split at onward
      · next run =>
          obtain ⟨rfl, span⟩ := SpanRead.step_fits inv.sound fits run
          cases onward
          exact inv.moved_inside (quiet_consumer _ _) span (.inl (by rw [under]; rfl))
            (by rw [under]; rfl) (fun _ => by rw [under]; rfl)
      · next _ run =>
          obtain ⟨rfl, fitting⟩ := SpanRead.step_fits inv.sound fits run
          cases onward
          exact inv.moved_inside (quiet_consumer _ _) fitting (.inl (by rw [under]; rfl))
            (by rw [under]; rfl) (fun _ => by rw [under]; rfl)
      · cases onward
  | making span =>
      simp only [under] at onward
      cases onward
      exact making_effect inv under
  | abandoning error =>
      have role : s.consumer.role = .leasing := by rw [under]; rfl
      obtain ⟨unleased, _⟩ := inv.phase.unleased_of_leasing role
      simp only [under] at onward
      cases onward
      refine ⟨⟨⟨inv.sound, inv.producer, trivial, ?_⟩, .inl (.refl _), fun _ => ?_⟩,
        ⟨rfl, rfl, rfl, rfl, rfl, rfl, rfl, rfl⟩, rfl, List.prefix_rfl, .inl rfl,
            by unfold Balanced; rw [under]; rfl⟩
      · exact .free ⟨unleased.quiet, unleased.settled⟩ rfl nofun
      · unfold State.reserved
        rw [under]
        rfl
  | returned result =>
      rw [under] at onward
      cases onward

end TickRing

end Gambit
