import Gambit.TickRing.SpscOperations
import Gambit.TickRing.TickRing

/-!
# The phases of the lease protocol

At most one thread consumes from the ring at a time, and the lease flag says
which: without a lease it is the consumer, with a lease it is whoever gives the
lease back.  A lease is made, stays pinned until it is closed and the last view
is gone, is released, is credited to the counter, and clears the flag.
-/

set_option autoImplicit false

namespace Gambit

namespace TickRing

open SpscRing (TryPush TryPop Consume SpanRead Release ReadSpan Produced Consumed)

variable {Record : Type} {ring ring' : SpscRing Record}

/-! ## What a thread has under way -/

inductive Role where
  | outside
  | taking
  | leasing
deriving DecidableEq

namespace Consumer

/-- Whether the consumer is past the check for a lease, and for which purpose. -/
def role : Consumer Record → Role
  | .accessing _ => .taking
  | .depthHead _ _ => .taking
  | .depthTail _ _ _ => .taking
  | .popping _ _ _ => .taking
  | .popCounting _ _ => .taking
  | .processing _ _ => .taking
  | .processCounting _ => .taking
  | .leasing _ => .leasing
  | .making _ => .leasing
  | .abandoning _ => .leasing
  | _ => .outside

/-- The records the call has decided to consume and has not yet consumed. -/
def pending : Consumer Record → Nat
  | .popping count output _ => count.toNat - output.length
  | .popCounting count output => count.toNat - output.length
  | .processing count _ => count.toNat
  | _ => 0

/-- The records that are consumed and not yet counted. -/
def uncounted : Consumer Record → UInt64
  | .popCounting _ _ => 1
  | .processCounting count => count
  | _ => 0

/-- The next step decides how many records are consumed. -/
def decides : Consumer Record → Bool
  | .depthTail _ _ _ => true
  | .making _ => true
  | _ => false

end Consumer

/-- `consume` will take exactly `count` records. -/
def Takes (count : UInt64) : Consume Record → Prop
  | .loadTail maximum => maximum = count
  | .loadHead maximum _ => maximum = count
  | .readSlots _ chosen _ => chosen = count
  | .storeTail _ chosen _ => chosen = count
  | .returned _ => False

def Consumer.Fits (ring : SpscRing Record) : Consumer Record → Prop
  | .depthTail _ _ head =>
      ∃ n, head = UInt64.ofNat n ∧ ring.consumed.length ≤ n ∧ n ≤ ring.published.length
  | .popping count output op =>
      op.Fits ring ∧ output.length < count.toNat ∧
        ring.consumed.length + (count.toNat - output.length) ≤ ring.published.length
  | .popCounting count output =>
      ring.consumed.length + (count.toNat - output.length) ≤ ring.published.length
  | .processing count op =>
      op.Fits ring ∧ Takes count op ∧
        ring.consumed.length + count.toNat ≤ ring.published.length
  | .leasing op => op.Fits ring
  | .making span => span.Fits ring
  | _ => True

def Producer.Fits (ring : SpscRing Record) : Producer Record → Prop
  | .pushing _ op => op.Fits ring
  | _ => True

theorem Consumer.Fits.stable {consumer : Consumer Record} (fits : consumer.Fits ring)
    (produced : Produced ring ring') : consumer.Fits ring' := by
  have longer := produced.published.length_le
  cases consumer with
  | depthTail taking maximum head =>
      obtain ⟨n, loaded, above, below⟩ := fits
      refine ⟨n, loaded, ?_, below.trans longer⟩
      rw [produced.consumed]
      exact above
  | popping count output op =>
      exact ⟨TryPop.Fits.stable fits.1 produced, fits.2.1, produced.available fits.2.2⟩
  | popCounting count output => exact produced.available fits
  | processing count op =>
      exact ⟨Consume.Fits.stable fits.1 produced, fits.2.1, produced.available fits.2.2⟩
  | leasing op => exact SpanRead.Fits.stable fits produced
  | making span => exact ReadSpan.Fits.stable fits produced
  | _ => trivial

theorem Producer.Fits.stable {producer : Producer Record} (fits : producer.Fits ring)
    (consumed : Consumed ring ring') : producer.Fits ring' := by
  cases producer with
  | pushing batch op => exact TryPush.Fits.stable fits consumed
  | _ => trivial

/-- Before the check for a lease, or after the call. -/
structure Consumer.Outside (consumer : Consumer Record) : Prop where
  role : consumer.role = .outside
  pending : consumer.pending = 0
  decides : consumer.decides = false
  fits : ∀ ring, consumer.Fits ring

theorem uncounted_of_outside {consumer : Consumer Record} (outside : consumer.role = .outside) :
    consumer.uncounted = 0 := by
  cases consumer with
  | popCounting count output => cases outside
  | processCounting count => cases outside
  | _ => rfl

section Outside

variable {w : Waiting}

theorem outside_enter (call : Call) : (call.enter : Consumer Record).Outside := by
  cases call <;> exact ⟨rfl, rfl, rfl, fun _ => trivial⟩

theorem outside_dataHead (w : Waiting) (site : Site) :
    (.dataHead w site : Consumer Record).Outside :=
  ⟨rfl, rfl, rfl, fun _ => trivial⟩

theorem outside_backoffLoop (attempt : UInt64) :
    (w.backoffLoop attempt : Consumer Record).Outside := by
  unfold Waiting.backoffLoop
  split <;> exact outside_dataHead _ _

theorem outside_spinLoop (attempt : UInt64) : (w.spinLoop attempt : Consumer Record).Outside := by
  unfold Waiting.spinLoop
  split
  · exact outside_dataHead _ _
  · exact outside_backoffLoop 0

theorem outside_wait (w : Waiting) : (w.enter : Consumer Record).Outside := by
  unfold Waiting.enter
  split
  · exact ⟨rfl, rfl, rfl, fun _ => trivial⟩
  · exact outside_spinLoop 0

theorem outside_onward (site : Site) (holds : Bool) :
    (site.onward w holds : Consumer Record).Outside := by
  cases site with
  | spin attempt =>
      cases holds
      · exact ⟨rfl, rfl, rfl, fun _ => trivial⟩
      · exact outside_backoffLoop 0
  | backoff attempt => cases holds <;> exact ⟨rfl, rfl, rfl, fun _ => trivial⟩
  | park =>
      simp only [Site.onward]
      split
      · exact ⟨rfl, rfl, rfl, fun _ => trivial⟩
      · exact outside_enter w.call
  | waiting => cases holds <;> exact ⟨rfl, rfl, rfl, fun _ => trivial⟩
  | expired => exact ⟨rfl, rfl, rfl, fun _ => trivial⟩

end Outside

theorem popLoop_pending (count : UInt64) (output : List Record) :
    (popLoop count output).pending = count.toNat - output.length := by
  unfold popLoop
  split
  · rfl
  · change 0 = _
    omega

theorem popLoop_uncounted (count : UInt64) (output : List Record) :
    (popLoop count output).uncounted = 0 := by
  unfold popLoop
  split <;> rfl

theorem popLoop_role (count : UInt64) (output : List Record) :
    (popLoop count output).role = .taking ∨ (popLoop count output).role = .outside := by
  unfold popLoop
  split
  · exact .inl rfl
  · exact .inr rfl

theorem popLoop_fits {count : UInt64} {output : List Record}
    (available : ring.consumed.length + (count.toNat - output.length) ≤ ring.published.length) :
    (popLoop count output).Fits ring := by
  unfold popLoop
  split
  · next unread => exact ⟨trivial, unread, available⟩
  · trivial

/-- Waking concerns neither the role nor what fits. -/
theorem wake_role (consumer : Consumer Record) : consumer.wake.role = consumer.role := by
  cases consumer <;> rfl

theorem wake_pending (consumer : Consumer Record) : consumer.wake.pending = consumer.pending := by
  cases consumer <;> rfl

theorem wake_uncounted (consumer : Consumer Record) :
    consumer.wake.uncounted = consumer.uncounted := by
  cases consumer <;> rfl

theorem Consumer.Fits.wake {consumer : Consumer Record} (fits : consumer.Fits ring) :
    consumer.wake.Fits ring := by
  cases consumer with
  | blocked w => trivial
  | _ => exact fits

/-! ## Leases -/

/-- The records of a lease for which the tail is advanced and which are not
counted yet. -/
def Leaser.uncounted : Leaser → UInt64
  | .crediting _ count => count
  | _ => 0

/-- Given back: the tail was advanced for it once, by its records. -/
structure Lease.Settled (ring : SpscRing Record) (lease : Lease) : Prop where
  closed : lease.closeRequested = true
  unviewed : lease.views = 0
  released : lease.released = true
  advanced : lease.advances = [(lease.origin, lease.origin + lease.span.count.toNat)]
  passed : lease.origin + lease.span.count.toNat ≤ ring.consumed.length

/-- Its records are the next ones in the ring. -/
structure Lease.Held (ring : SpscRing Record) (lease : Lease) : Prop where
  fits : lease.span.Fits ring
  origin : lease.origin = ring.consumed.length
  advances : lease.advances = []
  unreleased : lease.released = false

/-- The tail has been advanced, the flag not yet cleared. -/
structure Lease.Advanced (ring : SpscRing Record) (lease : Lease) : Prop where
  closed : lease.closeRequested = true
  unviewed : lease.views = 0
  unreleased : lease.released = false
  advanced : lease.advances = [(lease.origin, lease.origin + lease.span.count.toNat)]
  passed : lease.origin + lease.span.count.toNat = ring.consumed.length

/-- The lease is the last one, and the consumer is kept out. -/
structure State.Leased (s : State Record) (earlier : List Lease) (lease : Lease) : Prop where
  active : s.leaseActive = true
  leases : s.leases = earlier ++ [lease]
  settled : ∀ other ∈ earlier, other.Settled s.ring
  role : s.consumer.role = .outside

/-- No lease is left. -/
structure State.Unleased (s : State Record) : Prop where
  quiet : s.leaser = .idle
  settled : ∀ lease ∈ s.leases, lease.Settled s.ring

inductive State.Phase (s : State Record) : Prop where
  | free (unleased : s.Unleased) (inactive : s.leaseActive = false)
      (role : s.consumer.role ≠ .leasing)
  | starting (unleased : s.Unleased) (active : s.leaseActive = true)
      (role : s.consumer.role = .leasing)
  | pinned (earlier : List Lease) (lease : Lease) (leased : s.Leased earlier lease)
      (held : lease.Held s.ring) (quiet : s.leaser = .idle) (used : lease.ready = false)
  | releasing (earlier : List Lease) (lease : Lease) (op : Release)
      (leased : s.Leased earlier lease) (held : lease.Held s.ring)
      (under : s.leaser = .releasing earlier.length lease.span.count op) (ready : lease.ready = true)
      (fits : op.Fits s.ring lease.span) (unreturned : op ≠ .returned)
  | crediting (earlier : List Lease) (lease : Lease) (leased : s.Leased earlier lease)
      (advanced : lease.Advanced s.ring)
      (under : s.leaser = .crediting earlier.length lease.span.count)
  | clearing (earlier : List Lease) (lease : Lease) (leased : s.Leased earlier lease)
      (advanced : lease.Advanced s.ring) (under : s.leaser = .clearing earlier.length)

structure State.Inv (s : State Record) : Prop where
  sound : s.ring.Sound
  producer : s.producer.Fits s.ring
  consumer : s.consumer.Fits s.ring
  phase : s.Phase

theorem Lease.ready_iff {lease : Lease} :
    lease.ready = true ↔
      lease.closeRequested = true ∧ lease.views = 0 ∧ lease.released = false := by
  unfold ready
  simp only [Bool.and_eq_true, decide_eq_true_eq, Bool.not_eq_true', and_assoc]

theorem Lease.Settled.later {lease : Lease} (settled : lease.Settled ring)
    (later : ring.consumed.length ≤ ring'.consumed.length) : lease.Settled ring' :=
  { settled with passed := settled.passed.trans later }

theorem Lease.Held.stable {lease : Lease} (held : lease.Held ring)
    (produced : Produced ring ring') : lease.Held ring' where
  fits := held.fits.stable produced
  origin := by
    rw [produced.consumed]
    exact held.origin
  advances := held.advances
  unreleased := held.unreleased

theorem Lease.Advanced.stable {lease : Lease} (advanced : lease.Advanced ring)
    (produced : Produced ring ring') : lease.Advanced ring' where
  closed := advanced.closed
  unviewed := advanced.unviewed
  unreleased := advanced.unreleased
  advanced := advanced.advanced
  passed := by
    rw [produced.consumed]
    exact advanced.passed

end TickRing

end Gambit
