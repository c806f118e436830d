import Gambit.Lib.CircularWindow
import Gambit.Lib.Machines

/-!
# The single-producer single-consumer ring

Every operation of `SpscRing` is a program of atomic steps over the memory of
the ring: a load or a store of a cursor, a write or a read of a slot.  A thread
keeps the values it loaded, and the other thread may step in between.

The last two fields of the ring are its history: the records whose cursor store
has been made, and those that the consumer has left behind.  No step reads them.
-/

set_option autoImplicit false

namespace Gambit

/-- A capacity that the constructor admits. -/
structure Capacity where
  value : UInt64
  atLeastTwo : 2 ≤ value
  powerOfTwo : value &&& (value - 1) = 0
deriving DecidableEq

/-- `maxSize` is `std::vector<Record>().max_size()`. -/
def checkedCapacity (maxSize capacity : UInt64) : Except String Capacity :=
  if invalid : capacity < 2 ∨ capacity &&& (capacity - 1) ≠ 0 ∨ maxSize < capacity then
    .error "ring capacity must be a supported power of two and at least two"
  else
    .ok {
      value := capacity
      atLeastTwo := UInt64.not_lt.mp fun small => invalid (.inl small)
      powerOfTwo := Decidable.byContradiction fun mixed => invalid (.inr (.inl mixed)) }

structure SpscRing (Record : Type) where
  capacity : Capacity
  slots : List Record
  head : UInt64
  tail : UInt64
  published : List Record
  consumed : List Record
deriving DecidableEq

namespace SpscRing

variable {Record : Type}

/-- A pointer into the slots, null when there is nothing to read. -/
structure ReadSpan where
  data : Option UInt64
  count : UInt64
deriving DecidableEq

def new [Inhabited Record] (maxSize capacity : UInt64) : Except String (SpscRing Record) := do
  let capacity ← checkedCapacity maxSize capacity
  return {
    capacity
    slots := List.replicate capacity.value.toNat default
    head := 0
    tail := 0
    published := []
    consumed := [] }

def mask (ring : SpscRing Record) : UInt64 := ring.capacity.value - 1

def readSlot [Inhabited Record] (ring : SpscRing Record) (cursor : UInt64) : Record :=
  ring.slots.getD (cursor &&& ring.mask).toNat default

def writeSlot (ring : SpscRing Record) (cursor : UInt64) (record : Record) : SpscRing Record :=
  { ring with slots := ring.slots.set (cursor &&& ring.mask).toNat record }

/-- The store that publishes a record. -/
def storeHead (ring : SpscRing Record) (head : UInt64) (record : Record) : SpscRing Record :=
  { ring with head, published := ring.published ++ [record] }

/-- The store that gives the slots of the records read back to the producer. -/
def storeTail (ring : SpscRing Record) (tail : UInt64) (records : List Record) :
    SpscRing Record :=
  { ring with tail, consumed := ring.consumed ++ records }

/-- What a reader of the span sees now. -/
def view (ring : SpscRing Record) (span : ReadSpan) : List Record :=
  match span.data with
  | some data => (ring.slots.drop data.toNat).take span.count.toNat
  | none => []

/-! ## The operations as programs -/

inductive TryPush (Record : Type) where
  | loadHead (record : Record)
  | loadTail (record : Record) (head : UInt64)
  | writeSlot (record : Record) (head : UInt64)
  | storeHead (record : Record) (head : UInt64)
  | returned (pushed : Bool)
deriving DecidableEq

def TryPush.step (ring : SpscRing Record) :
    TryPush Record → Option (SpscRing Record × TryPush Record)
  | .loadHead record => some (ring, .loadTail record ring.head)
  | .loadTail record head =>
      if head - ring.tail = ring.capacity.value then some (ring, .returned false)
      else some (ring, .writeSlot record head)
  | .writeSlot record head => some (ring.writeSlot head record, .storeHead record head)
  | .storeHead record head => some (ring.storeHead (head + 1) record, .returned true)
  | .returned _ => none

inductive TryPop (Record : Type) where
  | loadTail
  | loadHead (tail : UInt64)
  | readSlot (tail : UInt64)
  | storeTail (tail : UInt64) (record : Record)
  | returned (record : Option Record)
deriving DecidableEq

def TryPop.step [Inhabited Record] (ring : SpscRing Record) :
    TryPop Record → Option (SpscRing Record × TryPop Record)
  | .loadTail => some (ring, .loadHead ring.tail)
  | .loadHead tail =>
      if tail = ring.head then some (ring, .returned none)
      else some (ring, .readSlot tail)
  | .readSlot tail => some (ring, .storeTail tail (ring.readSlot tail))
  | .storeTail tail record => some (ring.storeTail (tail + 1) [record], .returned (some record))
  | .returned _ => none

inductive Consume (Record : Type) where
  | loadTail (maximum : UInt64)
  | loadHead (maximum tail : UInt64)
  | readSlots (tail count : UInt64) (read : List Record)
  | storeTail (tail count : UInt64) (read : List Record)
  | returned (count : UInt64)
deriving DecidableEq

/-- The head of the loop over the records; `read` went to the consumer function. -/
def Consume.loop (tail count : UInt64) (read : List Record) : Consume Record :=
  if read.length < count.toNat then .readSlots tail count read else .storeTail tail count read

def Consume.step [Inhabited Record] (ring : SpscRing Record) :
    Consume Record → Option (SpscRing Record × Consume Record)
  | .loadTail maximum => some (ring, .loadHead maximum ring.tail)
  | .loadHead maximum tail =>
      let available := ring.head - tail
      some (ring, loop tail (if available < maximum then available else maximum) [])
  | .readSlots tail count read =>
      some (ring, loop tail count (read ++ [ring.readSlot (tail + UInt64.ofNat read.length)]))
  | .storeTail tail count read => some (ring.storeTail (tail + count) read, .returned count)
  | .returned _ => none

inductive SpanRead where
  | loadTail (maximum : UInt64)
  | loadHead (maximum tail : UInt64)
  | returned (span : ReadSpan)
deriving DecidableEq

def SpanRead.span (ring : SpscRing Record) (maximum tail : UInt64) : ReadSpan :=
  let available := ring.head - tail
  let requested := if available < maximum then available else maximum
  let contiguous := ring.capacity.value - (tail &&& ring.mask)
  let count := if requested < contiguous then requested else contiguous
  ⟨if count = 0 then none else some (tail &&& ring.mask), count⟩

/-- `read_span`. -/
def SpanRead.step (ring : SpscRing Record) : SpanRead → Option (SpscRing Record × SpanRead)
  | .loadTail maximum => some (ring, .loadHead maximum ring.tail)
  | .loadHead maximum tail => some (ring, .returned (span ring maximum tail))
  | .returned _ => none

inductive Release where
  | loadTail (count : UInt64)
  | loadHead (count tail : UInt64)
  | storeTail (count tail : UInt64)
  | returned
  | threw (error : String)
deriving DecidableEq

def Release.step (ring : SpscRing Record) : Release → Option (SpscRing Record × Release)
  | .loadTail count => some (ring, .loadHead count ring.tail)
  | .loadHead count tail =>
      if ring.head - tail < count then
        some (ring, .threw "ring release exceeds available records")
      else some (ring, .storeTail count tail)
  | .storeTail count tail =>
      some (ring.storeTail (tail + count) (ring.view ⟨some (tail &&& ring.mask), count⟩), .returned)
  | .returned => none
  | .threw _ => none

/-! ## One producer and one consumer -/

inductive Consumer (Record : Type) where
  | idle
  | popping (op : TryPop Record)
  | consuming (op : Consume Record)
  | spanning (op : SpanRead)
  | releasing (span : ReadSpan) (op : Release)
deriving DecidableEq

/-- The last call has returned; a span that was returned has to be released first. -/
def Consumer.free : Consumer Record → Bool
  | .idle => true
  | .popping (.returned _) => true
  | .consuming (.returned _) => true
  | .releasing _ .returned => true
  | .releasing _ (.threw _) => true
  | _ => false

structure Threads (Record : Type) where
  ring : SpscRing Record
  producer : TryPush Record
  consumer : Consumer Record
deriving DecidableEq

inductive Action (Record : Type) where
  | tryPush (record : Record)
  | producer
  | tryPop
  | consume (maximum : UInt64)
  | readSpan (maximum : UInt64)
  | release
  | consumer

namespace Threads

/-- No call has been made. -/
def start (ring : SpscRing Record) : Threads Record := ⟨ring, .returned false, .idle⟩

def producerStep (s : Threads Record) : Option (Threads Record) :=
  (s.producer.step s.ring).map fun (ring, producer) => { s with ring, producer }

def consumerStep [Inhabited Record] (s : Threads Record) : Option (Threads Record) :=
  match s.consumer with
  | .idle => none
  | .popping op =>
      (op.step s.ring).map fun (ring, op) => { s with ring, consumer := .popping op }
  | .consuming op =>
      (op.step s.ring).map fun (ring, op) => { s with ring, consumer := .consuming op }
  | .spanning op =>
      (op.step s.ring).map fun (ring, op) => { s with ring, consumer := .spanning op }
  | .releasing span op =>
      (op.step s.ring).map fun (ring, op) => { s with ring, consumer := .releasing span op }

def call (s : Threads Record) (consumer : Consumer Record) : Option (Threads Record) :=
  if s.consumer.free then some { s with consumer } else none

def step [Inhabited Record] (s : Threads Record) : Action Record → Option (Threads Record)
  | .tryPush record =>
      match s.producer with
      | .returned _ => some { s with producer := .loadHead record }
      | _ => none
  | .producer => s.producerStep
  | .tryPop => s.call (.popping .loadTail)
  | .consume maximum => s.call (.consuming (.loadTail maximum))
  | .readSpan maximum => s.call (.spanning (.loadTail maximum))
  | .release =>
      match s.consumer with
      | .spanning (.returned span) =>
          some { s with consumer := .releasing span (.loadTail span.count) }
      | _ => none
  | .consumer => s.consumerStep

/-- The records that the operation under way has handed to the consumer. -/
def inHand (s : Threads Record) : List Record :=
  match s.consumer with
  | .popping (.storeTail _ record) => [record]
  | .consuming (.readSlots _ _ read) => read
  | .consuming (.storeTail _ _ read) => read
  | .spanning (.returned span) => s.ring.view span
  | .releasing span (.loadTail _) => s.ring.view span
  | .releasing span (.loadHead _ _) => s.ring.view span
  | .releasing span (.storeTail _ _) => s.ring.view span
  | _ => []

def obtained (s : Threads Record) : List Record := s.ring.consumed ++ s.inHand

end Threads

end SpscRing

end Gambit
