import Gambit.TickRing.SpscRing
import Mathlib.Logic.Function.Basic

/-!
# The tick ring

`TickRing` around the ring: batches, the parked consumer, leases and metrics.
Each thread is a program of atomic steps over the shared memory: the ring, the
counters, the two flags and the wait mutex.  There are one producer, one
consumer, and any number of threads in `close` and of monitoring threads.  The
calls on a lease and on its views hold the interpreter lock until they return,
so they are one more thread, which may run beside the consumer.
-/

set_option autoImplicit false

namespace Gambit

/-- What the code asks of a number of seconds: whether it is finite, and its sign. -/
inductive Seconds where
  | notFinite
  | negative
  | zero
  | positive
deriving DecidableEq

inductive Counter where
  | pushed
  | popped
  | dropped
  | spins
  | yields
  | backoffs
  | parks
  | parkTimeouts
  | wakeups
deriving DecidableEq

namespace TickRing

variable {Record : Type}

open SpscRing (TryPush TryPop Consume SpanRead Release ReadSpan)

inductive MutexOwner where
  | producer
  | consumer
  | closer (i : Nat)
deriving DecidableEq

/-! ## The producer: `push_batch` -/

structure Batch (Record : Type) where
  records : List Record
  pushed : Nat
deriving DecidableEq

inductive Producer (Record : Type) where
  | idle
  | loadClosed (batch : Batch Record) (record : Record)
  | pushing (batch : Batch Record) (op : TryPush Record)
  | counting (batch : Batch Record)
  | dropping (batch : Batch Record)
  | locking (pushed : Nat)
  | unlocking (pushed : Nat)
  | notifying (pushed : Nat)
  | returned (pushed : Nat)
deriving DecidableEq

/-- After the loop. -/
def Batch.finish (batch : Batch Record) : Producer Record :=
  if batch.pushed ≠ 0 then .locking batch.pushed else .returned batch.pushed

/-- The head of the loop over the records. -/
def Batch.loop (batch : Batch Record) : Producer Record :=
  match batch.records[batch.pushed]? with
  | some record => .loadClosed batch record
  | none => batch.finish

def Producer.free : Producer Record → Bool
  | .idle => true
  | .returned _ => true
  | _ => false

/-! ## The consumer: `pop_batch`, `process_batch`, `lease_batch` and their waiting forms -/

inductive Taking where
  | popBatch
  | processBatch
deriving DecidableEq

inductive Call where
  | take (taking : Taking) (maximum : UInt64)
  | leaseBatch (maximum : UInt64)
deriving DecidableEq

structure Waiting where
  call : Call
  spinCount : UInt64
  timeout : Seconds
  backoffCount : UInt64
  maximumBackoff : Seconds
deriving DecidableEq

/-- Where `data_or_closed` is evaluated: at the head of the two loops, before
parking, under the mutex, and under the mutex once the time is over. -/
inductive Site where
  | spin (attempt : UInt64)
  | backoff (attempt : UInt64)
  | park
  | waiting
  | expired
deriving DecidableEq

inductive Outcome (Record : Type) where
  | batch (records : List Record)
  | processed (count : UInt64)
  | lease (index : Nat)
deriving DecidableEq

inductive Consumer (Record : Type) where
  | idle
  | dataHead (w : Waiting) (site : Site)
  | dataTail (w : Waiting) (site : Site) (head : UInt64)
  | dataClosed (w : Waiting) (site : Site)
  | spinning (w : Waiting) (attempt : UInt64)
  | yielding (w : Waiting) (attempt : UInt64)
  | backingOff (w : Waiting) (attempt : UInt64)
  | parking (w : Waiting)
  | locking (w : Waiting)
  | blocking (w : Waiting)
  | blocked (w : Waiting)
  | relocking (w : Waiting) (timedOut : Bool)
  | counting (w : Waiting) (awakened : Bool)
  | unlocking (w : Waiting)
  | rejecting (taking : Taking) (maximum : UInt64)
  | accessing (maximum : UInt64)
  | depthHead (taking : Taking) (maximum : UInt64)
  | depthTail (taking : Taking) (maximum head : UInt64)
  | popping (count : UInt64) (output : List Record) (op : TryPop Record)
  | popCounting (count : UInt64) (output : List Record)
  | processing (count : UInt64) (op : Consume Record)
  | processCounting (count : UInt64)
  | exchanging (maximum : UInt64)
  | leasing (op : SpanRead)
  | making (span : ReadSpan)
  | abandoning (error : String)
  | returned (result : Except String (Outcome Record))
deriving DecidableEq

def Consumer.free : Consumer Record → Bool
  | .idle => true
  | .returned _ => true
  | _ => false

def activeLease : String := "a tick batch lease is already active"

/-- `validate_wait_arguments`. -/
def Waiting.validate (w : Waiting) : Except String Unit :=
  if w.timeout = .notFinite ∨ w.timeout = .negative then
    .error "timeout_seconds must be finite and non-negative"
  else if w.maximumBackoff = .notFinite ∨ w.maximumBackoff = .negative then
    .error "maximum_backoff_seconds must be finite and non-negative"
  else .ok ()

/-- The call itself, after any waiting. -/
def Call.enter : Call → Consumer Record
  | .take taking maximum => .rejecting taking maximum
  | .leaseBatch maximum => .exchanging maximum

def Waiting.backoffLoop (w : Waiting) (attempt : UInt64) : Consumer Record :=
  if attempt < w.backoffCount ∧ w.maximumBackoff = .positive then .dataHead w (.backoff attempt)
  else .dataHead w .park

def Waiting.spinLoop (w : Waiting) (attempt : UInt64) : Consumer Record :=
  if attempt < w.spinCount then .dataHead w (.spin attempt) else w.backoffLoop 0

/-- The waiting forms of the calls. -/
def Waiting.enter (w : Waiting) : Consumer Record :=
  match w.validate with
  | .error error => .returned (.error error)
  | .ok () => w.spinLoop 0

/-- Where the evaluation of `data_or_closed` leads. -/
def Site.onward (w : Waiting) (holds : Bool) : Site → Consumer Record
  | .spin attempt => if holds then w.backoffLoop 0 else .spinning w attempt
  | .backoff attempt => if holds then .dataHead w .park else .backingOff w attempt
  | .park => if ¬ holds ∧ w.timeout = .positive then .parking w else w.call.enter
  | .waiting => if holds then .counting w true else .blocking w
  | .expired => .counting w holds

def ssizeMax : UInt64 := 9223372036854775807

/-- The head of the loop over the records of a copied batch. -/
def popLoop (count : UInt64) (output : List Record) : Consumer Record :=
  if output.length < count.toNat then .popping count output .loadTail
  else .returned (.ok (.batch output))

/-- The call once it knows how many records it takes. -/
def Taking.decided (taking : Taking) (count : UInt64) : Consumer Record :=
  match taking with
  | .popBatch =>
      if ssizeMax < count then .returned (.error "requested tick batch is too large")
      else popLoop count []
  | .processBatch => .processing count (.loadTail count)

/-- A notification reaches the consumer only while it is blocked. -/
def Consumer.wake : Consumer Record → Consumer Record
  | .blocked w => .relocking w false
  | consumer => consumer

/-! ## Leases -/

/-- `TickBatchLeaseState`.  Its last two fields are its history: the position of
its first record, and from where to where the tail was advanced for it. -/
structure Lease where
  span : ReadSpan
  views : Nat
  closeRequested : Bool
  released : Bool
  origin : Nat
  advances : List (Nat × Nat)
deriving DecidableEq

/-- The condition of `release_if_ready`. -/
def Lease.ready (lease : Lease) : Bool :=
  lease.closeRequested && lease.views = 0 && !lease.released

def Lease.values (lease : Lease) : Except String Lease :=
  if lease.closeRequested then .error "tick batch lease is closed"
  else .ok { lease with views := lease.views + 1 }

def Lease.close (lease : Lease) : Lease := { lease with closeRequested := true }

/-- `view_closed` up to `release_if_ready`. -/
def Lease.viewClosed (lease : Lease) : Lease := { lease with views := lease.views - 1 }

/-- The history of a lease when the tail has been advanced for it. -/
def Lease.advance (before after : SpscRing Record) (lease : Lease) : Lease :=
  { lease with
    advances := lease.advances ++ [(before.consumed.length, after.consumed.length)] }

inductive Leaser where
  | idle
  | releasing (index : Nat) (count : UInt64) (op : Release)
  | crediting (index : Nat) (count : UInt64)
  | clearing (index : Nat)
  | threw (error : String)
deriving DecidableEq

/-! ## Close calls and monitors -/

inductive Closer where
  | idle
  | locking
  | storing
  | unlocking
  | notifying
  | returned
deriving DecidableEq

def Closer.free : Closer → Bool
  | .idle => true
  | .returned => true
  | _ => false

structure Metrics where
  capacity : UInt64
  depth : UInt64
  counters : List UInt64
  closed : Bool
  activeLease : Bool
deriving DecidableEq

/-- In the order of the snapshot. -/
def metricCounters : List Counter :=
  [.pushed, .popped, .dropped, .spins, .yields, .backoffs, .parks, .parkTimeouts, .wakeups]

/-- A monitor after the load of the head keeps, as its history, how many
records had been published then. -/
inductive Monitor where
  | idle
  | depthHead (metrics : Bool)
  | depthTail (metrics : Bool) (head : UInt64) (published : Nat)
  | loadCounter (depth : UInt64) (loaded : List UInt64)
  | loadClosed (depth : UInt64) (loaded : List UInt64)
  | loadLease (depth : UInt64) (loaded : List UInt64) (closed : Bool)
  | answered (depth : UInt64)
  | snapshot (metrics : Metrics)
deriving DecidableEq

def Monitor.free : Monitor → Bool
  | .idle => true
  | .answered _ => true
  | .snapshot _ => true
  | _ => false

/-- The depth that a monitor has computed. -/
def Monitor.reported : Monitor → Option UInt64
  | .loadCounter depth _ => some depth
  | .loadClosed depth _ => some depth
  | .loadLease depth _ _ => some depth
  | .answered depth => some depth
  | .snapshot metrics => some metrics.depth
  | _ => none

/-! ## The machine -/

structure State (Record : Type) where
  ring : SpscRing Record
  counters : Counter → UInt64
  closed : Bool
  leaseActive : Bool
  mutex : Option MutexOwner
  producer : Producer Record
  consumer : Consumer Record
  leaser : Leaser
  leases : List Lease
  closers : Nat → Closer
  monitors : Nat → Monitor
  /-- The records of all `push_batch` calls so far. -/
  offered : Nat

namespace State

def start (ring : SpscRing Record) : State Record where
  ring := ring
  counters := fun _ => 0
  closed := false
  leaseActive := false
  mutex := none
  producer := .idle
  consumer := .idle
  leaser := .idle
  leases := []
  closers := fun _ => .idle
  monitors := fun _ => .idle
  offered := 0

/-- `fetch_add`. -/
def add (s : State Record) (counter : Counter) (n : UInt64) : State Record :=
  { s with counters := Function.update s.counters counter (s.counters counter + n) }

/-- A thread takes the mutex when nobody has it. -/
def lock (s : State Record) (owner : MutexOwner) : Option (State Record) :=
  if s.mutex = none then some { s with mutex := some owner } else none

def producerStep (s : State Record) : Option (State Record) :=
  match s.producer with
  | .idle => none
  | .loadClosed batch record =>
      if s.closed then some { s with producer := .dropping batch }
      else some { s with producer := .pushing batch (.loadHead record) }
  | .pushing batch op =>
      match op.step s.ring with
      | some (ring, .returned true) => some { s with ring, producer := .counting batch }
      | some (ring, .returned false) => some { s with ring, producer := .dropping batch }
      | some (ring, op) => some { s with ring, producer := .pushing batch op }
      | none => none
  | .counting batch =>
      let batch := { batch with pushed := batch.pushed + 1 }
      some { s.add .pushed 1 with producer := batch.loop }
  | .dropping batch =>
      let rest := batch.records.length - batch.pushed
      some { s.add .dropped (UInt64.ofNat rest) with producer := batch.finish }
  | .locking pushed =>
      (s.lock .producer).map fun s => { s with producer := .unlocking pushed }
  | .unlocking pushed => some { s with mutex := none, producer := .notifying pushed }
  | .notifying pushed =>
      some { s with consumer := s.consumer.wake, producer := .returned pushed }
  | .returned _ => none

def consumerStep [Inhabited Record] (s : State Record) : Option (State Record) :=
  match s.consumer with
  | .idle => none
  | .dataHead w site => some { s with consumer := .dataTail w site s.ring.head }
  | .dataTail w site head =>
      if head - s.ring.tail ≠ 0 then some { s with consumer := site.onward w true }
      else some { s with consumer := .dataClosed w site }
  | .dataClosed w site => some { s with consumer := site.onward w s.closed }
  | .spinning w attempt =>
      some { s.add .spins 1 with
        consumer := if attempt &&& 63 = 63 then .yielding w attempt else w.spinLoop (attempt + 1) }
  | .yielding w attempt => some { s.add .yields 1 with consumer := w.spinLoop (attempt + 1) }
  | .backingOff w attempt => some { s.add .backoffs 1 with consumer := w.backoffLoop (attempt + 1) }
  | .parking w => some { s.add .parks 1 with consumer := .locking w }
  | .locking w => (s.lock .consumer).map fun s => { s with consumer := .dataHead w .waiting }
  | .blocking w => some { s with mutex := none, consumer := .blocked w }
  | .blocked _ => none
  | .relocking w timedOut =>
      (s.lock .consumer).map fun s =>
        { s with consumer := .dataHead w (if timedOut then .expired else .waiting) }
  | .counting w awakened =>
      some { s.add (if awakened then .wakeups else .parkTimeouts) 1 with consumer := .unlocking w }
  | .unlocking w => some { s with mutex := none, consumer := w.call.enter }
  | .rejecting taking maximum =>
      if s.leaseActive then some { s with consumer := .returned (.error activeLease) }
      else match taking with
        | .popBatch => some { s with consumer := .depthHead .popBatch maximum }
        | .processBatch => some { s with consumer := .accessing maximum }
  | .accessing maximum => some { s with consumer := .depthHead .processBatch maximum }
  | .depthHead taking maximum =>
      some { s with consumer := .depthTail taking maximum s.ring.head }
  | .depthTail taking maximum head =>
      let available := head - s.ring.tail
      let count := if available < maximum then available else maximum
      some { s with consumer := taking.decided count }
  | .popping count output op =>
      match op.step s.ring with
      | some (ring, .returned (some record)) =>
          some { s with ring, consumer := .popCounting count (output ++ [record]) }
      | some (ring, .returned none) =>
          some { s with ring, consumer := .returned (.error "tick ring consumer invariant failed") }
      | some (ring, op) => some { s with ring, consumer := .popping count output op }
      | none => none
  | .popCounting count output => some { s.add .popped 1 with consumer := popLoop count output }
  | .processing count op =>
      match op.step s.ring with
      | some (ring, .returned consumed) =>
          if consumed ≠ count then
            some { s with
              ring
              consumer := .returned (.error "tick ring consumer invariant failed") }
          else some { s with ring, consumer := .processCounting consumed }
      | some (ring, op) => some { s with ring, consumer := .processing count op }
      | none => none
  | .processCounting count =>
      some { s.add .popped count with consumer := .returned (.ok (.processed count)) }
  | .exchanging maximum =>
      if s.leaseActive then some { s with consumer := .returned (.error activeLease) }
      else some { s with leaseActive := true, consumer := .leasing (.loadTail maximum) }
  | .leasing op =>
      match op.step s.ring with
      | some (ring, .returned span) => some { s with ring, consumer := .making span }
      | some (ring, op) => some { s with ring, consumer := .leasing op }
      | none => none
  | .making span =>
      some { s with
        leases := s.leases ++ [⟨span, 0, false, false, s.ring.consumed.length, []⟩]
        consumer := .returned (.ok (.lease s.leases.length)) }
  | .abandoning error =>
      some { s with leaseActive := false, consumer := .returned (.error error) }
  | .returned _ => none

/-- The processor is in use by another operation. -/
def processorBusy (s : State Record) : Option (State Record) :=
  match s.consumer with
  | .accessing _ =>
      some { s with
        consumer := .returned (.error "tick processor is already in use by another operation") }
  | _ => none

/-- An exception while the lease is made. -/
def leaseThrows (s : State Record) (error : String) : Option (State Record) :=
  match s.consumer with
  | .making _ => some { s with consumer := .abandoning error }
  | _ => none

/-- The condition wait returns, without a notification. -/
def unblock (s : State Record) (timedOut : Bool) : Option (State Record) :=
  match s.consumer with
  | .blocked w => some { s with consumer := .relocking w timedOut }
  | _ => none

/-- The lease after a change of its counts, up to the end of `release_if_ready`
or into it. -/
def releaseIfReady (s : State Record) (index : Nat) (lease : Lease) : State Record :=
  { s with
    leases := s.leases.set index lease
    leaser :=
      if lease.ready then .releasing index lease.span.count (.loadTail lease.span.count)
      else .idle }

def leaseCall (s : State Record) (index : Nat) (change : Lease → Option Lease) :
    Option (State Record) :=
  match s.leaser, s.leases[index]? with
  | .idle, some lease =>
      match change lease with
      | some lease => some (s.releaseIfReady index lease)
      | none => some s
  | _, _ => none

def leaserStep (s : State Record) : Option (State Record) :=
  match s.leaser with
  | .idle => none
  | .releasing index count op =>
      match op.step s.ring with
      | some (ring, .returned) =>
          some { s with
            ring
            leases := s.leases.modify index (Lease.advance s.ring ring)
            leaser := .crediting index count }
      | some (ring, .threw error) => some { s with ring, leaser := .threw error }
      | some (ring, op) => some { s with ring, leaser := .releasing index count op }
      | none => none
  | .crediting index count => some { s.add .popped count with leaser := .clearing index }
  | .clearing index =>
      -- the assignment to `released` is not seen before the interpreter lock is given up
      some { s with
        leaseActive := false
        leases := s.leases.modify index fun lease => { lease with released := true }
        leaser := .idle }
  | .threw _ => none

def setCloser (s : State Record) (i : Nat) (closer : Closer) : State Record :=
  { s with closers := Function.update s.closers i closer }

def closerStep (s : State Record) (i : Nat) : Option (State Record) :=
  match s.closers i with
  | .idle => none
  | .locking => (s.lock (.closer i)).map fun s => s.setCloser i .storing
  | .storing => some ({ s with closed := true }.setCloser i .unlocking)
  | .unlocking => some ({ s with mutex := none }.setCloser i .notifying)
  | .notifying => some ({ s with consumer := s.consumer.wake }.setCloser i .returned)
  | .returned => none

def setMonitor (s : State Record) (i : Nat) (monitor : Monitor) : State Record :=
  { s with monitors := Function.update s.monitors i monitor }

def monitorStep (s : State Record) (i : Nat) : Option (State Record) :=
  match s.monitors i with
  | .idle => none
  | .depthHead metrics =>
      some (s.setMonitor i (.depthTail metrics s.ring.head s.ring.published.length))
  | .depthTail metrics head _ =>
      let depth := head - s.ring.tail
      some (s.setMonitor i (if metrics then .loadCounter depth [] else .answered depth))
  | .loadCounter depth loaded =>
      match metricCounters[loaded.length]? with
      | some counter => some (s.setMonitor i (.loadCounter depth (loaded ++ [s.counters counter])))
      | none => some (s.setMonitor i (.loadClosed depth loaded))
  | .loadClosed depth loaded => some (s.setMonitor i (.loadLease depth loaded s.closed))
  | .loadLease depth loaded closed =>
      some (s.setMonitor i (.snapshot ⟨s.ring.capacity.value, depth, loaded, closed, s.leaseActive⟩))
  | .answered _ => none
  | .snapshot _ => none

end State

inductive Action (Record : Type) where
  | pushBatch (records : List Record)
  | producer
  | call (call : Call)
  | wait (w : Waiting)
  | consumer
  | processorBusy
  | leaseThrows (error : String)
  | unblock (timedOut : Bool)
  | values (index : Nat)
  | closeLease (index : Nat)
  | viewClosed (index : Nat)
  | leaser
  | close (i : Nat)
  | closer (i : Nat)
  | monitor (i : Nat)
  | observe (i : Nat) (metrics : Bool)

def State.step [Inhabited Record] (s : State Record) : Action Record → Option (State Record)
  | .pushBatch records =>
      if s.producer.free then
        some { s with
          producer := Batch.loop ⟨records, 0⟩
          offered := s.offered + records.length }
      else none
  | .producer => s.producerStep
  | .call call => if s.consumer.free then some { s with consumer := call.enter } else none
  | .wait w => if s.consumer.free then some { s with consumer := w.enter } else none
  | .consumer => s.consumerStep
  | .processorBusy => s.processorBusy
  | .leaseThrows error => s.leaseThrows error
  | .unblock timedOut => s.unblock timedOut
  | .values index => s.leaseCall index fun lease => lease.values.toOption
  | .closeLease index => s.leaseCall index fun lease => some lease.close
  | .viewClosed index =>
      s.leaseCall index fun lease => if lease.views = 0 then none else some lease.viewClosed
  | .leaser => s.leaserStep
  | .close i =>
      if (s.closers i).free then some (s.setCloser i .locking) else none
  | .closer i => s.closerStep i
  | .monitor i => s.monitorStep i
  | .observe i metrics =>
      if (s.monitors i).free then some (s.setMonitor i (.depthHead metrics)) else none

end TickRing

end Gambit
