import Gambit.TickRing.Lossless

/-!
# A lease pins its records

From its making until it is closed and its last view is gone, a lease keeps the
consumer out and its records in their slots; then the tail is advanced by its
records, once.
-/

set_option autoImplicit false

open Machines

namespace Gambit

namespace TickRing

open SpscRing (TryPush TryPop Consume SpanRead Release ReadSpan Produced Consumed)

variable {Record : Type} {ring ring' : SpscRing Record} {s t : State Record} {lease : Lease}
  {index : Nat}

/-- Not both closed and without views. -/
def Lease.Outstanding (lease : Lease) : Prop :=
  ¬ (lease.closeRequested = true ∧ lease.views = 0)

/-- A bound on the steps that are left of a release. -/
def Leaser.remaining : Leaser → Nat
  | .releasing _ _ (.loadTail _) => 5
  | .releasing _ _ (.loadHead _ _) => 4
  | .releasing _ _ (.storeTail _ _) => 3
  | .crediting _ _ => 2
  | .clearing _ => 1
  | _ => 0

/-- The last lease, while the flag is not cleared. -/
theorem unreleased_last (inv : s.Inv) (present : s.leases[index]? = some lease)
    (unreleased : lease.released = false) :
    ∃ earlier, s.Leased earlier lease ∧ index = earlier.length := by
  have settled_absurd (settled : lease.Settled s.ring) : False := by
    have released := settled.released
    rw [unreleased] at released
    cases released
  have last {earlier : List Lease} {other : Lease} (leased : s.Leased earlier other) :
      ∃ earlier, s.Leased earlier lease ∧ index = earlier.length := by
    rw [leased.leases] at present
    by_cases before : index < earlier.length
    · rw [List.getElem?_append_left before] at present
      exact (settled_absurd (leased.settled _ (List.mem_of_getElem? present))).elim
    · obtain ⟨inside, _⟩ := List.getElem?_eq_some_iff.mp present
      rw [List.length_append, List.length_singleton] at inside
      have final : index = earlier.length := by omega
      subst final
      rw [List.getElem?_concat_length] at present
      cases present
      exact ⟨earlier, leased, rfl⟩
  cases inv.phase with
  | free unleased _ _ =>
      exact (settled_absurd (unleased.settled _ (List.mem_of_getElem? present))).elim
  | starting unleased _ _ =>
      exact (settled_absurd (unleased.settled _ (List.mem_of_getElem? present))).elim
  | pinned _ _ leased _ _ _ => exact last leased
  | releasing _ _ _ leased _ _ _ _ => exact last leased
  | crediting _ _ leased _ _ => exact last leased
  | clearing _ _ leased _ _ => exact last leased

/-- Every lease is where its two lifetimes and the release under way say. -/
inductive Standing (s : State Record) (index : Nat) (lease : Lease) : Prop where
  | settled (settled : lease.Settled s.ring)
  | pinned (held : lease.Held s.ring) (used : lease.ready = false) (quiet : s.leaser = .idle)
  | releasing (held : lease.Held s.ring) (ready : lease.ready = true)
      (busy : s.leaser ≠ .idle)
  | advanced (advanced : lease.Advanced s.ring) (busy : s.leaser ≠ .idle)

theorem standing (inv : s.Inv) (present : s.leases[index]? = some lease) :
    Standing s index lease := by
  have split {earlier : List Lease} {last : Lease} (leased : s.Leased earlier last) :
      lease.Settled s.ring ∨ lease = last := by
    have member := List.mem_of_getElem? present
    rw [leased.leases] at member
    rcases List.mem_append.mp member with old | new
    · exact .inl (leased.settled _ old)
    · exact .inr (List.mem_singleton.mp new)
  cases inv.phase with
  | free unleased _ _ => exact .settled (unleased.settled _ (List.mem_of_getElem? present))
  | starting unleased _ _ => exact .settled (unleased.settled _ (List.mem_of_getElem? present))
  | pinned earlier last leased held quiet used =>
      rcases split leased with settled | rfl
      · exact .settled settled
      · exact .pinned held used quiet
  | releasing earlier last op leased held under ready fits =>
      rcases split leased with settled | rfl
      · exact .settled settled
      · exact .releasing held ready (by rw [under]; nofun)
  | crediting earlier last leased advanced under =>
      rcases split leased with settled | rfl
      · exact .settled settled
      · exact .advanced advanced (by rw [under]; nofun)
  | clearing earlier last leased advanced under =>
      rcases split leased with settled | rfl
      · exact .settled settled
      · exact .advanced advanced (by rw [under]; nofun)

/-- An outstanding lease holds the next records. -/
theorem held_of_outstanding (inv : s.Inv) (present : s.leases[index]? = some lease)
    (outstanding : lease.Outstanding) : lease.Held s.ring ∧ s.leaser = .idle := by
  cases standing inv present with
  | settled settled => exact (outstanding ⟨settled.closed, settled.unviewed⟩).elim
  | pinned held _ quiet => exact ⟨held, quiet⟩
  | releasing _ ready _ =>
      obtain ⟨closed, unviewed, _⟩ := Lease.ready_iff.mp ready
      exact (outstanding ⟨closed, unviewed⟩).elim
  | advanced advanced _ => exact (outstanding ⟨advanced.closed, advanced.unviewed⟩).elim

/-- What a view of an outstanding lease shows, in terms of the records published. -/
theorem view_of_outstanding (inv : s.Inv) (present : s.leases[index]? = some lease)
    (outstanding : lease.Outstanding) :
    lease.origin + lease.span.count.toNat ≤ s.ring.published.length ∧
      s.ring.view lease.span =
        (s.ring.published.drop lease.origin).take lease.span.count.toNat := by
  obtain ⟨held, _⟩ := held_of_outstanding inv present outstanding
  have available := held.fits.available
  have seen := held.fits.view inv.sound
  rw [← held.origin] at available
  unfold SpscRing.next at seen
  rw [← held.origin] at seen
  exact ⟨available, seen⟩

/-! ## What has been decided -/

theorem pending_le (inv : s.Inv) :
    s.ring.consumed.length + s.consumer.pending ≤ s.ring.published.length := by
  have ordered := inv.sound.ordered
  have fits := inv.consumer
  cases under : s.consumer with
  | popping count output op =>
      rw [under] at fits
      exact fits.2.2
  | popCounting count output =>
      rw [under] at fits
      exact fits
  | processing count op =>
      rw [under] at fits
      exact fits.2.2
  | _ => exact ordered

theorem pending_of_outside {consumer : Consumer Record} (outside : consumer.role = .outside) :
    consumer.pending = 0 := by
  cases consumer with
  | popping count output op => cases outside
  | popCounting count output => cases outside
  | processing count op => cases outside
  | _ => rfl

/-- No more is decided to be consumed than has been published. -/
theorem reserved_le (inv : s.Inv) : s.reserved ≤ s.ring.published.length := by
  have ordered := inv.sound.ordered
  have leasing {earlier : List Lease} {lease : Lease} (leased : s.Leased earlier lease)
      (bound : s.ring.consumed.length + lease.pending ≤ s.ring.published.length) :
      s.reserved ≤ s.ring.published.length := by
    unfold State.reserved
    rw [pending_of_outside leased.role, leased.sum_pending]
    exact bound
  have unleasing (unleased : s.Unleased) : s.reserved ≤ s.ring.published.length := by
    unfold State.reserved
    rw [sum_pending_settled unleased.settled]
    exact pending_le inv
  cases inv.phase with
  | free unleased _ _ => exact unleasing unleased
  | starting unleased _ _ => exact unleasing unleased
  | pinned _ lease leased held _ _ =>
      refine leasing leased ?_
      rw [held.pending]
      exact held.fits.available
  | releasing _ lease _ leased held =>
      refine leasing leased ?_
      rw [held.pending]
      exact held.fits.available
  | crediting _ lease leased advanced =>
      refine leasing leased ?_
      rw [advanced.pending]
      exact ordered
  | clearing _ lease leased advanced =>
      refine leasing leased ?_
      rw [advanced.pending]
      exact ordered

/-! ## Over a run -/

/-- Records stay published, and leases keep their place. -/
def Grows (s t : State Record) : Prop :=
  s.ring.published <+: t.ring.published ∧
    s.leases.map Lease.place <+: t.leases.map Lease.place

theorem Move.grows (move : Move s t) : Grows s t := by
  cases move with
  | producer effect =>
      refine ⟨effect.produced.published, ?_⟩
      rw [effect.frame.leases]
  | consumer effect =>
      refine ⟨?_, effect.leases.map _⟩
      rw [effect.published]
  | leaser effect =>
      refine ⟨?_, ?_⟩
      · rw [effect.published]
      · rw [effect.leases]
  | closer i effect =>
      refine ⟨?_, ?_⟩
      · rw [effect.frame.ring]
      · rw [effect.frame.leases]
  | monitor i effect =>
      refine ⟨?_, ?_⟩
      · rw [effect.frame.ring]
      · rw [effect.frame.leases]

theorem grows_of_reaches [Inhabited Record] (inv : s.Inv) (run : Reaches State.step s t) :
    t.Inv ∧ Grows s t := by
  constructor
  · exact (reaches_invariant (P := fun _ => True) inv trivial (fun _ _ _ _ _ => trivial) run).1
  · apply run.relates (P := State.Inv) (R := Grows) inv
    · exact fun r action r' held onward => (step_move held onward).effect.inv
    · exact fun r action r' held onward => (step_move held onward).grows
    · exact fun r => ⟨List.prefix_rfl, List.prefix_rfl⟩
    · exact fun a b c first second => ⟨first.1.trans second.1, first.2.trans second.2⟩

/-- A lease that is outstanding before and after a run shows the same records. -/
theorem view_eq_of_reaches [Inhabited Record] {after : Lease} (inv : s.Inv)
    (run : Reaches State.step s t) (before : s.leases[index]? = some lease)
    (outstanding : lease.Outstanding) (later : t.leases[index]? = some after)
    (still : after.Outstanding) :
    after.span = lease.span ∧ t.ring.view after.span = s.ring.view lease.span := by
  obtain ⟨invAfter, published, leases⟩ := grows_of_reaches inv run
  have place : after.place = lease.place := by
    have first : (s.leases.map Lease.place)[index]? = some lease.place := by
      rw [List.getElem?_map, before]
      rfl
    have second : (t.leases.map Lease.place)[index]? = some after.place := by
      rw [List.getElem?_map, later]
      rfl
    obtain ⟨inside, _⟩ := List.getElem?_eq_some_iff.mp first
    obtain ⟨more, extended⟩ := leases
    rw [← extended, List.getElem?_append_left inside, first] at second
    exact (Option.some.inj second).symm
  have span : after.span = lease.span := congrArg Prod.fst place
  have origin : after.origin = lease.origin := congrArg Prod.snd place
  refine ⟨span, ?_⟩
  obtain ⟨available, seen⟩ := view_of_outstanding inv before outstanding
  obtain ⟨_, seenAfter⟩ := view_of_outstanding invAfter later still
  obtain ⟨more, extended⟩ := published
  rw [seen, seenAfter, span, origin, ← extended, List.drop_append_of_le_length (by omega),
    List.take_append_of_le_length (by rw [List.length_drop]; omega)]

/-! ## The consumer is refused -/

theorem refused_of_unreleased [Inhabited Record] (inv : s.Inv)
    (present : s.leases[index]? = some lease) (unreleased : lease.released = false)
    (onward : s.consumerStep = some t) :
    t.ring = s.ring ∧ t.leases = s.leases ∧ t.leaser = s.leaser ∧ t.leaseActive = true ∧
      ((∃ taking maximum, s.consumer = .rejecting taking maximum) ∨
          (∃ maximum, s.consumer = .exchanging maximum) →
        t.consumer = .returned (.error activeLease)) := by
  obtain ⟨earlier, leased, _⟩ := unreleased_last inv present unreleased
  have active := leased.active
  have outside := leased.role
  unfold State.consumerStep at onward
  have elsewhere {consumer : Consumer Record} (under : s.consumer = consumer)
      (reject : ∀ taking maximum, consumer ≠ .rejecting taking maximum)
      (exchange : ∀ maximum, consumer ≠ .exchanging maximum) {P : Prop} :
      (∃ taking maximum, s.consumer = .rejecting taking maximum) ∨
        (∃ maximum, s.consumer = .exchanging maximum) → P := by
    rintro (⟨taking, maximum, here⟩ | ⟨maximum, here⟩)
    · exact (reject taking maximum (under.symm.trans here)).elim
    · exact (exchange maximum (under.symm.trans here)).elim
  cases under : s.consumer with
  | dataTail w site head =>
      simp only [under] at onward
      split at onward
      · cases onward
        exact ⟨rfl, rfl, rfl, active, nofun⟩
      · cases onward
        exact ⟨rfl, rfl, rfl, active, nofun⟩
  | locking w =>
      simp only [under] at onward
      obtain ⟨locked, taken, rfl⟩ := Option.map_eq_some_iff.mp onward
      obtain ⟨_, rfl⟩ := lock_eq taken
      exact ⟨rfl, rfl, rfl, active, nofun⟩
  | relocking w timedOut =>
      simp only [under] at onward
      obtain ⟨locked, taken, rfl⟩ := Option.map_eq_some_iff.mp onward
      obtain ⟨_, rfl⟩ := lock_eq taken
      exact ⟨rfl, rfl, rfl, active, nofun⟩
  | rejecting taking maximum =>
      simp only [under] at onward
      rw [if_pos active] at onward
      cases onward
      exact ⟨rfl, rfl, rfl, active, fun _ => rfl⟩
  | exchanging maximum =>
      simp only [under] at onward
      rw [if_pos active] at onward
      cases onward
      exact ⟨rfl, rfl, rfl, active, fun _ => rfl⟩
  | idle =>
      rw [under] at onward
      cases onward
  | blocked w =>
      rw [under] at onward
      cases onward
  | returned result =>
      rw [under] at onward
      cases onward
  | accessing maximum =>
      rw [under] at outside
      cases outside
  | depthHead taking maximum =>
      rw [under] at outside
      cases outside
  | depthTail taking maximum head =>
      rw [under] at outside
      cases outside
  | popping count output op =>
      rw [under] at outside
      cases outside
  | popCounting count output =>
      rw [under] at outside
      cases outside
  | processing count op =>
      rw [under] at outside
      cases outside
  | processCounting count =>
      rw [under] at outside
      cases outside
  | leasing op =>
      rw [under] at outside
      cases outside
  | making span =>
      rw [under] at outside
      cases outside
  | abandoning error =>
      rw [under] at outside
      cases outside
  | _ =>
      simp only [under] at onward
      cases onward
      exact ⟨rfl, rfl, rfl, active, nofun⟩

/-! ## The release ends -/

theorem leaser_progress (inv : s.Inv) (busy : s.leaser ≠ .idle) :
    ∃ t, s.leaserStep = some t ∧ t.leaser.remaining < s.leaser.remaining := by
  cases inv.phase with
  | free unleased _ _ => exact absurd unleased.quiet busy
  | starting unleased _ _ => exact absurd unleased.quiet busy
  | pinned _ _ _ _ quiet _ => exact absurd quiet busy
  | releasing earlier lease op leased held under ready fits unreturned =>
      unfold State.leaserStep
      cases op with
      | loadTail count =>
          rw [under]
          exact ⟨_, rfl, Nat.lt_succ_self 4⟩
      | loadHead count tail =>
          obtain ⟨rfl, rfl, spans⟩ := fits
          have enough : ¬ s.ring.head - s.ring.tail < lease.span.count := by
            apply UInt64.not_lt.mpr
            apply UInt64.le_iff_toNat_le.mpr
            rw [inv.sound.toNat_depth]
            have available := spans.available
            omega
          rw [under]
          simp only [Release.step, if_neg enough]
          exact ⟨_, rfl, Nat.lt_succ_self 3⟩
      | storeTail count tail =>
          rw [under]
          exact ⟨_, rfl, Nat.lt_succ_self 2⟩
      | returned => exact absurd rfl unreturned
      | threw error => exact fits.elim
  | crediting earlier lease leased advanced under =>
      unfold State.leaserStep
      rw [under]
      exact ⟨_, rfl, Nat.lt_succ_self 1⟩
  | clearing earlier lease leased advanced under =>
      unfold State.leaserStep
      rw [under]
      exact ⟨_, rfl, Nat.lt_succ_self 0⟩

/-! ## Where the tail moves -/

theorem taking_unleased (inv : s.Inv) (taking : s.consumer.role = .taking) :
    ∀ lease ∈ s.leases, lease.released = true := by
  have inside {earlier : List Lease} {last : Lease} (leased : s.Leased earlier last) : False := by
    have outside := leased.role
    rw [taking] at outside
    cases outside
  intro lease member
  cases inv.phase with
  | free unleased _ _ => exact (unleased.settled lease member).released
  | starting unleased _ _ => exact (unleased.settled lease member).released
  | pinned _ _ leased _ _ _ => exact (inside leased).elim
  | releasing _ _ _ leased => exact (inside leased).elim
  | crediting _ _ leased => exact (inside leased).elim
  | clearing _ _ leased => exact (inside leased).elim

/-- What the leases of a state guarantee, for its next step and for every run
from it. -/
structure State.LeaseSafe [Inhabited Record] (s : State Record) : Prop where
  fifo : s.ring.consumed <+: s.ring.published
  single : ∀ (i j : Nat) first second, s.leases[i]? = some first → s.leases[j]? = some second →
    first.released = false → second.released = false → i = j
  excluded : ∀ (index : Nat) lease, s.leases[index]? = some lease → lease.released = false →
    s.consumer.role = .outside
  refused : ∀ (index : Nat) lease t, s.leases[index]? = some lease → lease.released = false →
    s.consumerStep = some t →
    t.ring = s.ring ∧ t.leases = s.leases ∧ t.leaser = s.leaser ∧ t.leaseActive = true ∧
      ((∃ taking maximum, s.consumer = .rejecting taking maximum) ∨
          (∃ maximum, s.consumer = .exchanging maximum) →
        t.consumer = .returned (.error activeLease))
  shown : ∀ (index : Nat) lease, s.leases[index]? = some lease → lease.Outstanding →
    lease.origin = s.ring.consumed.length ∧
      lease.origin + lease.span.count.toNat ≤ s.ring.published.length ∧
      s.ring.view lease.span = (s.ring.published.drop lease.origin).take lease.span.count.toNat
  pinned : ∀ (index : Nat) lease t after, Reaches State.step s t →
    s.leases[index]? = some lease → lease.Outstanding →
    t.leases[index]? = some after → after.Outstanding →
    after.span = lease.span ∧ t.ring.view after.span = s.ring.view lease.span
  tail : ∀ action t, s.step action = some t →
    t.ring.consumed = s.ring.consumed ∨
      (s.consumer.role = .taking ∧ ∀ lease ∈ s.leases, lease.released = true) ∨
      ∃ (index : Nat) (lease : Lease), s.leases[index]? = some lease ∧
        lease.closeRequested = true ∧ lease.views = 0 ∧ lease.advances = [] ∧
        t.ring.consumed = s.ring.consumed ++ s.ring.view lease.span ∧
        t.ring.consumed.length = s.ring.consumed.length + lease.span.count.toNat
  once : ∀ (index : Nat) lease, s.leases[index]? = some lease →
    lease.advances = [] ∨
      lease.advances = [(lease.origin, lease.origin + lease.span.count.toNat)] ∧
        lease.closeRequested = true ∧ lease.views = 0
  due : s.leaser = .idle → ∀ (index : Nat) lease, s.leases[index]? = some lease →
    lease.closeRequested = true → lease.views = 0 →
    lease.released = true ∧
      lease.advances = [(lease.origin, lease.origin + lease.span.count.toNat)]
  ends : s.leaser ≠ .idle →
    ∃ t, s.leaserStep = some t ∧ t.leaser.remaining < s.leaser.remaining

theorem lease_once (inv : s.Inv) (present : s.leases[index]? = some lease) :
    lease.advances = [] ∨
      lease.advances = [(lease.origin, lease.origin + lease.span.count.toNat)] ∧
        lease.closeRequested = true ∧ lease.views = 0 := by
  cases standing inv present with
  | settled settled => exact .inr ⟨settled.advanced, settled.closed, settled.unviewed⟩
  | pinned held _ _ => exact .inl held.advances
  | releasing held _ _ => exact .inl held.advances
  | advanced advanced _ => exact .inr ⟨advanced.advanced, advanced.closed, advanced.unviewed⟩

theorem lease_due (inv : s.Inv) (quiet : s.leaser = .idle)
    (present : s.leases[index]? = some lease) (closed : lease.closeRequested = true)
    (unviewed : lease.views = 0) :
    lease.released = true ∧
      lease.advances = [(lease.origin, lease.origin + lease.span.count.toNat)] := by
  cases standing inv present with
  | settled settled => exact ⟨settled.released, settled.advanced⟩
  | pinned held used _ =>
      rw [Lease.ready_iff.mpr ⟨closed, unviewed, held.unreleased⟩] at used
      cases used
  | releasing _ _ busy => exact absurd quiet busy
  | advanced _ busy => exact absurd quiet busy

theorem tail_cases (inv : s.Inv) (move : Move s t) :
    t.ring.consumed = s.ring.consumed ∨
      (s.consumer.role = .taking ∧ ∀ lease ∈ s.leases, lease.released = true) ∨
      ∃ (index : Nat) (lease : Lease), s.leases[index]? = some lease ∧
        lease.closeRequested = true ∧ lease.views = 0 ∧ lease.advances = [] ∧
        t.ring.consumed = s.ring.consumed ++ s.ring.view lease.span ∧
        t.ring.consumed.length = s.ring.consumed.length + lease.span.count.toNat := by
  cases move with
  | producer effect => exact .inl effect.produced.consumed
  | consumer effect =>
      rcases effect.tail with same | taking
      · exact .inl same
      · exact .inr (.inl ⟨taking, taking_unleased inv taking⟩)
  | leaser effect =>
      rcases effect.tail with same | ⟨index, lease, present, ready, held, records⟩
      · exact .inl same
      · obtain ⟨closed, unviewed, _⟩ := Lease.ready_iff.mp ready
        refine .inr (.inr ⟨index, lease, present, closed, unviewed, held.advances, records, ?_⟩)
        rw [records, List.length_append, held.fits.view inv.sound,
          SpscRing.length_next held.fits.available]
  | closer i effect => exact .inl (by rw [effect.frame.ring])
  | monitor i effect => exact .inl (by rw [effect.frame.ring])

theorem State.Inv.leaseSafe [Inhabited Record] (inv : s.Inv) : s.LeaseSafe where
  fifo := by
    rw [inv.sound.fifo]
    exact List.take_prefix _ _
  single := by
    intro i j first second atFirst atSecond unreleased other
    obtain ⟨earlier, leased, rfl⟩ := unreleased_last inv atFirst unreleased
    obtain ⟨before, leased', rfl⟩ := unreleased_last inv atSecond other
    have length := congrArg List.length (leased.leases.symm.trans leased'.leases)
    rw [List.length_append, List.length_append] at length
    exact Nat.add_right_cancel length
  excluded := by
    intro index lease present unreleased
    obtain ⟨earlier, leased, _⟩ := unreleased_last inv present unreleased
    exact leased.role
  refused := fun _ _ _ present unreleased onward =>
    refused_of_unreleased inv present unreleased onward
  shown := by
    intro index lease present outstanding
    obtain ⟨held, _⟩ := held_of_outstanding inv present outstanding
    obtain ⟨available, seen⟩ := view_of_outstanding inv present outstanding
    exact ⟨held.origin, available, seen⟩
  pinned := fun _ _ _ _ run before outstanding later still =>
    view_eq_of_reaches inv run before outstanding later still
  tail := fun _ _ onward => tail_cases inv (step_move inv onward)
  once := fun _ _ present => lease_once inv present
  due := fun quiet _ _ present closed unviewed => lease_due inv quiet present closed unviewed
  ends := fun busy => leaser_progress inv busy

/-- In every state that a run of the tick ring reaches, leases pin their
records. -/
theorem lease_pins_records [Inhabited Record] {maxSize capacity : UInt64}
    (created : SpscRing.new maxSize capacity = .ok ring)
    (run : Reaches State.step (State.start ring) s) : s.LeaseSafe :=
  (inv_of_reaches created run).leaseSafe

/-- A record is pushed and leased. -/
def pushAndLease : List (Action Nat) :=
  .pushBatch [5] :: List.replicate 9 .producer ++
    .call (.leaseBatch 2) :: List.replicate 4 .consumer ++ [.values 0, .closeLease 0]

theorem lease_pins_records_closed :
    ∃ s, exec State.step (State.start twoSlots) pushAndLease = some s ∧
      s.leases = [⟨⟨some 0, 1⟩, 1, true, false, 0, []⟩] ∧ s.LeaseSafe := by
  have created : SpscRing.new 1000 2 = .ok twoSlots := rfl
  refine ⟨_, rfl, rfl, ?_⟩
  have run : exec State.step (State.start twoSlots) pushAndLease = some _ := rfl
  exact lease_pins_records created (reaches_of_exec run)

end TickRing

end Gambit
