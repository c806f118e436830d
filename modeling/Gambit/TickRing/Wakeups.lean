import Gambit.TickRing.Leases

/-!
# No lost wakeup

The consumer evaluates its predicate under the mutex and gives the mutex up
only as it blocks.  Whoever publishes a record after the consumer has loaded the
head has to take that mutex before it notifies, and `closed` is stored under it.
-/

set_option autoImplicit false

open CircularWindow Machines

namespace Gambit

namespace TickRing

open SpscRing (TryPush TryPop Consume SpanRead Release ReadSpan Produced Consumed)

variable {Record : Type} {ring ring' : SpscRing Record} {s t : State Record}

/-! ## Who owes a notification -/

/-- Something was published and the mutex is still to be taken. -/
def Producer.WillLock : Producer Record → Prop
  | .loadClosed batch _ => batch.pushed ≠ 0
  | .pushing batch _ => batch.pushed ≠ 0
  | .counting _ => True
  | .dropping batch => batch.pushed ≠ 0
  | .locking _ => True
  | _ => False

/-- Something was published and the notification is still to come. -/
def Producer.Owes : Producer Record → Prop
  | .unlocking _ => True
  | .notifying _ => True
  | producer => producer.WillLock

/-- `closed` is stored and the notification is still to come. -/
def Closer.Owes : Closer → Prop
  | .unlocking => True
  | .notifying => True
  | _ => False

theorem Producer.WillLock.owes {producer : Producer Record} (will : producer.WillLock) :
    producer.Owes := by
  cases producer with
  | unlocking pushed => trivial
  | notifying pushed => trivial
  | _ => exact will

/-! ## What the waiting consumer knows -/

/-- The evaluations under the mutex. -/
def Site.locked : Site → Bool
  | .waiting => true
  | .expired => true
  | _ => false

/-- The consumer has the mutex. -/
def Consumer.locked : Consumer Record → Bool
  | .dataHead _ site => site.locked
  | .dataTail _ site _ => site.locked
  | .dataClosed _ site => site.locked
  | .blocking _ => true
  | .counting _ _ => true
  | .unlocking _ => true
  | _ => false

def State.nonempty (s : State Record) : Prop := s.ring.consumed.length < s.ring.published.length

/-- What the loads made so far are worth. -/
def Watch (s : State Record) : Consumer Record → Prop
  | .dataTail _ site head =>
      ∃ n, head = UInt64.ofNat n ∧ s.reserved ≤ n ∧ n ≤ s.ring.published.length ∧
        (site.locked = true → n < s.ring.published.length → s.producer.WillLock)
  | .dataClosed _ site => site.locked = true → s.nonempty → s.producer.WillLock
  | .blocking _ => s.closed = false ∧ (s.nonempty → s.producer.WillLock)
  | .blocked _ =>
      (s.closed = true → ∃ i, (s.closers i).Owes) ∧ (s.nonempty → s.producer.Owes)
  | _ => True

structure Waking (s : State Record) : Prop where
  consumer : s.consumer.locked = true → s.mutex = some .consumer
  producer : ∀ pushed, s.producer = .unlocking pushed → s.mutex = some .producer
  closer : ∀ i, s.closers i = .storing ∨ s.closers i = .unlocking → s.mutex = some (.closer i)
  watch : Watch s s.consumer

theorem waking_start (ring : SpscRing Record) : Waking (State.start ring) where
  consumer := nofun
  producer := nofun
  closer := by
    rintro i (storing | unlocking)
    · cases storing
    · cases unlocking
  watch := trivial

section Unlocked

variable {w : Waiting}

theorem enter_unlocked (call : Call) : (call.enter : Consumer Record).locked = false := by
  cases call <;> rfl

theorem backoffLoop_unlocked (attempt : UInt64) :
    (w.backoffLoop attempt : Consumer Record).locked = false := by
  unfold Waiting.backoffLoop
  split <;> rfl

theorem spinLoop_unlocked (attempt : UInt64) :
    (w.spinLoop attempt : Consumer Record).locked = false := by
  unfold Waiting.spinLoop
  split
  · rfl
  · exact backoffLoop_unlocked 0

theorem wait_unlocked (w : Waiting) : (w.enter : Consumer Record).locked = false := by
  unfold Waiting.enter
  split
  · rfl
  · exact spinLoop_unlocked 0

theorem onward_locked (site : Site) (holds : Bool) :
    (site.onward w holds : Consumer Record).locked = site.locked := by
  cases site with
  | spin attempt =>
      cases holds
      · rfl
      · exact backoffLoop_unlocked 0
  | backoff attempt => cases holds <;> rfl
  | park =>
      simp only [Site.onward]
      split
      · rfl
      · exact enter_unlocked w.call
  | waiting => cases holds <;> rfl
  | expired => rfl

theorem watch_enter (call : Call) : Watch s call.enter := by
  cases call <;> trivial

theorem watch_backoffLoop (attempt : UInt64) : Watch s (w.backoffLoop attempt) := by
  unfold Waiting.backoffLoop
  split <;> trivial

theorem watch_spinLoop (attempt : UInt64) : Watch s (w.spinLoop attempt) := by
  unfold Waiting.spinLoop
  split
  · trivial
  · exact watch_backoffLoop 0

theorem watch_wait (w : Waiting) : Watch s w.enter := by
  unfold Waiting.enter
  split
  · trivial
  · exact watch_spinLoop 0

/-- The consumer goes on to block only after a load of `closed` under the mutex. -/
theorem watch_onward (site : Site) (holds : Bool)
    (blocks : site = .waiting → holds = false →
      s.closed = false ∧ (s.nonempty → s.producer.WillLock)) :
    Watch s (site.onward w holds) := by
  cases site with
  | spin attempt =>
      cases holds
      · trivial
      · exact watch_backoffLoop 0
  | backoff attempt => cases holds <;> trivial
  | park =>
      simp only [Site.onward]
      split
      · trivial
      · exact watch_enter w.call
  | waiting =>
      cases holds
      · exact blocks rfl rfl
      · trivial
  | expired => trivial

end Unlocked

/-! ## The producer -/

theorem finish_willLock {batch : Batch Record} (some_pushed : batch.pushed ≠ 0) :
    batch.finish.WillLock := by
  unfold Batch.finish
  rw [if_pos some_pushed]
  trivial

theorem loop_willLock {batch : Batch Record} (some_pushed : batch.pushed ≠ 0) :
    batch.loop.WillLock := by
  unfold Batch.loop
  split
  · exact some_pushed
  · exact finish_willLock some_pushed

theorem finish_ne_unlocking (batch : Batch Record) (pushed : Nat) :
    batch.finish ≠ .unlocking pushed := by
  unfold Batch.finish
  split
  · nofun
  · nofun

theorem loop_ne_unlocking (batch : Batch Record) (pushed : Nat) :
    batch.loop ≠ .unlocking pushed := by
  unfold Batch.loop
  split
  · nofun
  · exact finish_ne_unlocking batch pushed

/-- A step of the producer: what it publishes it will notify of, it takes the
mutex only when that is free, and it is done only after the notification. -/
structure Notifies (s t : State Record) : Prop where
  published : t.ring.published = s.ring.published ∨ t.producer.WillLock
  willLock : s.producer.WillLock → t.producer.WillLock ∨ s.mutex = none
  owes : s.producer.Owes → t.producer.Owes ∨ t.consumer = s.consumer.wake
  mutex : t.mutex = s.mutex ∨ (s.mutex = none ∧ t.mutex = some .producer) ∨
    ∃ pushed, s.producer = .unlocking pushed
  unlocking : ∀ pushed, t.producer = .unlocking pushed → t.mutex = some .producer

theorem producerStep_notifies (onward : s.producerStep = some t) : Notifies s t := by
  unfold State.producerStep at onward
  cases under : s.producer with
  | idle =>
      rw [under] at onward
      cases onward
  | loadClosed batch record =>
      simp only [under] at onward
      split at onward
      · cases onward
        refine ⟨.inl rfl, fun will => .inl ?_, fun owes => .inl ?_, .inl rfl, nofun⟩
        · rw [under] at will
          exact will
        · rw [under] at owes
          exact owes
      · cases onward
        refine ⟨.inl rfl, fun will => .inl ?_, fun owes => .inl ?_, .inl rfl, nofun⟩
        · rw [under] at will
          exact will
        · rw [under] at owes
          exact owes
  | pushing batch op =>
      simp only [under] at onward
      split at onward
      · cases onward
        exact ⟨.inr trivial, fun _ => .inl trivial, fun _ => .inl trivial, .inl rfl, nofun⟩
      · next run =>
          rcases TryPush.published_of_step run with ⟨_, _, _, other, _⟩ | ⟨_, published⟩
          · cases other
          · cases onward
            refine ⟨.inl published, fun will => .inl ?_, fun owes => .inl ?_, .inl rfl, nofun⟩
            · rw [under] at will
              exact will
            · rw [under] at owes
              exact owes
      · next unpushed _ run =>
          rcases TryPush.published_of_step run with ⟨_, _, _, other, _⟩ | ⟨_, published⟩
          · exact absurd other unpushed
          · cases onward
            refine ⟨.inl published, fun will => .inl ?_, fun owes => .inl ?_, .inl rfl, nofun⟩
            · rw [under] at will
              exact will
            · rw [under] at owes
              exact owes
      · cases onward
  | counting batch =>
      simp only [under] at onward
      cases onward
      have will := @loop_willLock _ { batch with pushed := batch.pushed + 1 } (Nat.succ_ne_zero _)
      exact ⟨.inl rfl, fun _ => .inl will, fun _ => .inl will.owes, .inl rfl,
        fun pushed unlocking => absurd unlocking (loop_ne_unlocking _ pushed)⟩
  | dropping batch =>
      simp only [under] at onward
      cases onward
      refine ⟨.inl rfl, fun will => .inl ?_, fun owes => .inl ?_, .inl rfl,
        fun pushed unlocking => absurd unlocking (finish_ne_unlocking _ pushed)⟩
      · rw [under] at will
        exact finish_willLock will
      · rw [under] at owes
        exact (finish_willLock owes).owes
  | locking pushed =>
      simp only [under] at onward
      obtain ⟨locked, taken, rfl⟩ := Option.map_eq_some_iff.mp onward
      obtain ⟨free, rfl⟩ := lock_eq taken
      exact ⟨.inl rfl, fun _ => .inr free, fun _ => .inl trivial, .inr (.inl ⟨free, rfl⟩),
        fun _ _ => rfl⟩
  | unlocking pushed =>
      simp only [under] at onward
      cases onward
      refine ⟨.inl rfl, fun will => ?_, fun _ => .inl trivial, .inr (.inr ⟨pushed, under⟩), nofun⟩
      rw [under] at will
      exact will.elim
  | notifying pushed =>
      simp only [under] at onward
      cases onward
      refine ⟨.inl rfl, fun will => ?_, fun _ => .inr rfl, .inl rfl, nofun⟩
      rw [under] at will
      exact will.elim
  | returned pushed =>
      rw [under] at onward
      cases onward

theorem free_owes_nothing {producer : Producer Record} (free : producer.free = true) :
    ¬ producer.Owes := by
  cases producer with
  | idle => exact id
  | returned pushed => exact id
  | _ => cases free

theorem pushBatch_notifies (free : s.producer.free = true) (records : List Record) :
    Notifies s { s with
      producer := Batch.loop ⟨records, 0⟩
      offered := s.offered + records.length } where
  published := .inl rfl
  willLock := fun will => (free_owes_nothing free will.owes).elim
  owes := fun owes => (free_owes_nothing free owes).elim
  mutex := .inl rfl
  unlocking := fun pushed unlocking => absurd unlocking (loop_ne_unlocking _ pushed)

/-! ## What survives the steps of the others -/

/-- The consumer's knowledge after a step of another thread that leaves it where
it is. -/
theorem Watch.stable {consumer : Consumer Record} (watch : Watch s consumer)
    (reserved : consumer.decides = false → t.reserved = s.reserved)
    (consumed : s.ring.consumed.length ≤ t.ring.consumed.length)
    (published : s.ring.published.length ≤ t.ring.published.length)
    (grown : t.ring.published = s.ring.published ∨ t.producer.WillLock)
    (willLock : consumer.locked = true → s.producer.WillLock → t.producer.WillLock)
    (closed : consumer.locked = true → t.closed = s.closed)
    (owes : (∃ w, consumer = .blocked w) → s.producer.Owes → t.producer.Owes)
    (closes : (∃ w, consumer = .blocked w) → (s.closed = true → ∃ i, (s.closers i).Owes) →
      t.closed = true → ∃ i, (t.closers i).Owes) : Watch t consumer := by
  have emptier (same : t.ring.published = s.ring.published) (nonempty : t.nonempty) :
      s.nonempty := by
    unfold State.nonempty at nonempty ⊢
    rw [same] at nonempty
    omega
  cases consumer with
  | dataTail w site head =>
      obtain ⟨n, loaded, above, below, will⟩ := watch
      refine ⟨n, loaded, (reserved rfl).le.trans above, below.trans published, fun locked later => ?_⟩
      rcases grown with same | new
      · rw [same] at later
        exact willLock locked (will locked later)
      · exact new
  | dataClosed w site =>
      intro locked nonempty
      rcases grown with same | new
      · exact willLock locked (watch locked (emptier same nonempty))
      · exact new
  | blocking w =>
      refine ⟨(closed rfl).trans watch.1, fun nonempty => ?_⟩
      rcases grown with same | new
      · exact willLock rfl (watch.2 (emptier same nonempty))
      · exact new
  | blocked w =>
      refine ⟨closes ⟨w, rfl⟩ watch.1, fun nonempty => ?_⟩
      rcases grown with same | new
      · exact owes ⟨w, rfl⟩ (watch.2 (emptier same nonempty))
      · exact new.owes
  | _ => trivial

/-- A notification either finds the consumer blocked or changes nothing. -/
theorem wake_cases (consumer : Consumer Record) :
    (∃ w, consumer = .blocked w ∧ consumer.wake = .relocking w false) ∨
      consumer.wake = consumer ∧ ∀ w, consumer ≠ .blocked w := by
  cases consumer with
  | blocked w => exact .inl ⟨w, rfl, rfl⟩
  | _ => exact .inr ⟨rfl, nofun⟩

theorem Effect.longer (effect : Effect s t) :
    s.ring.consumed.length ≤ t.ring.consumed.length ∧
      s.ring.published.length ≤ t.ring.published.length := by
  rcases effect.ring with produced | consumed
  · refine ⟨?_, produced.published.length_le⟩
    rw [produced.consumed]
  · refine ⟨consumed.consumed.length_le, ?_⟩
    rw [consumed.published]

/-- A mutex that somebody has is given up only by its owner. -/
theorem mutex_kept {owner : MutexOwner} (held : s.mutex = some owner)
    (mutex : t.mutex = s.mutex ∨ s.mutex = none ∨ ∃ other, other ≠ owner ∧ s.mutex = some other) :
    t.mutex = some owner := by
  rcases mutex with same | free | ⟨other, different, taken⟩
  · exact same.trans held
  · rw [held] at free
    cases free
  · rw [held] at taken
    exact absurd (Option.some.inj taken).symm different

theorem Waking.producerMove (waking : Waking s) (effect : ProducerEffect s t)
    (notifies : Notifies s t) : Waking t := by
  have frame := effect.frame
  obtain ⟨consumed, published⟩ := effect.toEffect.longer
  have mutex {owner : MutexOwner} (other : .producer ≠ owner) :
      t.mutex = s.mutex ∨ s.mutex = none ∨ ∃ other, other ≠ owner ∧ s.mutex = some other := by
    rcases notifies.mutex with same | ⟨free, _⟩ | ⟨pushed, unlocking⟩
    · exact .inl same
    · exact .inr (.inl free)
    · exact .inr (.inr ⟨.producer, other, waking.producer pushed unlocking⟩)
  have closer (i : Nat) (closing : t.closers i = .storing ∨ t.closers i = .unlocking) :
      t.mutex = some (.closer i) := by
    rw [frame.closers] at closing
    exact mutex_kept (waking.closer i closing) (mutex nofun)
  have stays (same : t.consumer = s.consumer)
      (owes : (∃ w, s.consumer = .blocked w) → s.producer.Owes → t.producer.Owes) : Waking t := by
    refine ⟨fun locked => ?_, notifies.unlocking, closer, ?_⟩
    · rw [same] at locked
      exact mutex_kept (waking.consumer locked) (mutex nofun)
    · rw [same]
      apply waking.watch.stable effect.reserved consumed published notifies.published
      · intro locked will
        rcases notifies.willLock will with still | free
        · exact still
        · rw [waking.consumer locked] at free
          cases free
      · exact fun _ => frame.closed
      · exact owes
      · intro _ closes
        rw [frame.closed, frame.closers]
        exact closes
  rcases wake_cases s.consumer with ⟨w, blocked, woken⟩ | ⟨unwoken, other⟩
  · rcases frame.consumer with same | wakes
    · -- the consumer is still blocked, so this was not the notification
      apply stays same
      intro _ owes
      rcases notifies.owes owes with still | wakes
      · exact still
      · rw [same, woken, blocked] at wakes
        cases wakes
    · rw [woken] at wakes
      refine ⟨?_, notifies.unlocking, closer, ?_⟩
      · rw [wakes]
        nofun
      · rw [wakes]
        trivial
  · have same : t.consumer = s.consumer := by
      rcases frame.consumer with same | wakes
      · exact same
      · exact wakes.trans unwoken
    apply stays same
    rintro ⟨w, blocked⟩
    exact absurd blocked (other w)

/-! ## Close calls, monitors and leases -/

theorem Waking.leaserMove (waking : Waking s) (effect : LeaserEffect s t) : Waking t := by
  have frame := effect.frame
  obtain ⟨consumed, published⟩ := effect.toEffect.longer
  refine ⟨fun locked => ?_, fun pushed unlocking => ?_, fun i closing => ?_, ?_⟩
  · rw [frame.consumer] at locked
    exact frame.mutex.trans (waking.consumer locked)
  · rw [frame.producer] at unlocking
    exact frame.mutex.trans (waking.producer pushed unlocking)
  · rw [frame.closers] at closing
    exact frame.mutex.trans (waking.closer i closing)
  · rw [frame.consumer]
    apply waking.watch.stable effect.reserved consumed published (.inl effect.published)
    · intro _ will
      rw [frame.producer]
      exact will
    · exact fun _ => frame.closed
    · intro _ owes
      rw [frame.producer]
      exact owes
    · intro _ closes
      rw [frame.closed, frame.closers]
      exact closes

/-- A step that leaves everything the waiting consumer looks at. -/
theorem Waking.unseen (waking : Waking s) (effect : AsideEffect s t) (mutex : t.mutex = s.mutex)
    (closed : t.closed = s.closed) (closers : t.closers = s.closers)
    (consumer : t.consumer = s.consumer) : Waking t := by
  have frame := effect.frame
  obtain ⟨consumed, published⟩ := effect.toEffect.longer
  refine ⟨fun locked => ?_, fun pushed unlocking => ?_, fun i closing => ?_, ?_⟩
  · rw [consumer] at locked
    exact mutex.trans (waking.consumer locked)
  · rw [frame.producer] at unlocking
    exact mutex.trans (waking.producer pushed unlocking)
  · rw [closers] at closing
    exact mutex.trans (waking.closer i closing)
  · rw [consumer]
    apply waking.watch.stable effect.reserved consumed published (.inl (by rw [frame.ring]))
    · intro _ will
      rw [frame.producer]
      exact will
    · exact fun _ => closed
    · intro _ owes
      rw [frame.producer]
      exact owes
    · intro _ closes
      rw [closed, closers]
      exact closes

/-- A close call steps from one of its places to another. -/
theorem Waking.closerMove {i : Nat} {closer : Closer} (waking : Waking s)
    (effect : AsideEffect s t) (closers : t.closers = Function.update s.closers i closer)
    (mutex : t.mutex = s.mutex ∨ s.mutex = none ∨
      s.mutex = some (.closer i) ∧ ∀ other, other ≠ .closer i → t.mutex ≠ some other)
    (own : closer = .storing ∨ closer = .unlocking → t.mutex = some (.closer i))
    (closed : t.closed = s.closed ∨ s.mutex = some (.closer i) ∧ closer.Owes)
    (owes : (s.closers i).Owes → closer.Owes ∨ t.consumer = s.consumer.wake)  :
    Waking t := by
  have frame := effect.frame
  obtain ⟨consumed, published⟩ := effect.toEffect.longer
  have kept {owner : MutexOwner} (other : owner ≠ .closer i) (held : s.mutex = some owner) :
      t.mutex = some owner := by
    rcases mutex with same | free | ⟨mine, _⟩
    · exact same.trans held
    · rw [held] at free
      cases free
    · rw [held] at mine
      exact absurd (Option.some.inj mine) other
  have producer (pushed : Nat) (unlocking : t.producer = .unlocking pushed) :
      t.mutex = some .producer := by
    rw [frame.producer] at unlocking
    exact kept nofun (waking.producer pushed unlocking)
  have closing (j : Nat) (at_j : t.closers j = .storing ∨ t.closers j = .unlocking) :
      t.mutex = some (.closer j) := by
    rw [closers] at at_j
    by_cases same : j = i
    · subst same
      rw [Function.update_self] at at_j
      exact own at_j
    · rw [Function.update_of_ne same] at at_j
      refine kept ?_ (waking.closer j at_j)
      intro equal
      exact same (MutexOwner.closer.inj equal)
  have stays (same : t.consumer = s.consumer)
      (still : (∃ w, s.consumer = .blocked w) → (s.closers i).Owes → closer.Owes) : Waking t := by
    refine ⟨fun locked => ?_, producer, closing, ?_⟩
    · rw [same] at locked
      exact kept nofun (waking.consumer locked)
    · rw [same]
      apply waking.watch.stable effect.reserved consumed published (.inl (by rw [frame.ring]))
      · intro _ will
        rw [frame.producer]
        exact will
      · intro locked
        rcases closed with unchanged | ⟨mine, _⟩
        · exact unchanged
        · rw [waking.consumer locked] at mine
          cases mine
      · intro _ owing
        rw [frame.producer]
        exact owing
      · intro blocked closes closedNow
        rcases closed with unchanged | ⟨_, new⟩
        · rw [unchanged] at closedNow
          obtain ⟨j, owing⟩ := closes closedNow
          refine ⟨j, ?_⟩
          rw [closers]
          by_cases here : j = i
          · subst here
            rw [Function.update_self]
            exact still blocked owing
          · rw [Function.update_of_ne here]
            exact owing
        · refine ⟨i, ?_⟩
          rw [closers, Function.update_self]
          exact new
  rcases wake_cases s.consumer with ⟨w, blocked, woken⟩ | ⟨unwoken, other⟩
  · rcases frame.consumer with same | wakes
    · apply stays same
      intro _ owing
      rcases owes owing with still | wakes
      · exact still
      · rw [same, woken, blocked] at wakes
        cases wakes
    · rw [woken] at wakes
      refine ⟨?_, producer, closing, ?_⟩
      · rw [wakes]
        nofun
      · rw [wakes]
        trivial
  · have same : t.consumer = s.consumer := by
      rcases frame.consumer with same | wakes
      · exact same
      · exact wakes.trans unwoken
    apply stays same
    rintro ⟨w, blocked⟩
    exact absurd blocked (other w)

theorem Waking.closer_step {i : Nat} (waking : Waking s) (effect : AsideEffect s t)
    (onward : s.closerStep i = some t) : Waking t := by
  unfold State.closerStep at onward
  cases at_i : s.closers i with
  | idle =>
      rw [at_i] at onward
      cases onward
  | locking =>
      simp only [at_i] at onward
      obtain ⟨locked, taken, rfl⟩ := Option.map_eq_some_iff.mp onward
      obtain ⟨free, rfl⟩ := lock_eq taken
      apply waking.closerMove effect rfl (.inr (.inl free)) (fun _ => rfl) (.inl rfl)
      rw [at_i]
      exact False.elim
  | storing =>
      simp only [at_i] at onward
      have mine := waking.closer i (.inl at_i)
      cases onward
      exact waking.closerMove effect rfl (.inl rfl) (fun _ => mine) (.inr ⟨mine, trivial⟩)
        fun _ => .inl trivial
  | unlocking =>
      simp only [at_i] at onward
      have mine := waking.closer i (.inr at_i)
      cases onward
      apply waking.closerMove effect rfl (.inr (.inr ⟨mine, nofun⟩)) ?_ (.inl rfl)
        fun _ => .inl trivial
      rintro (storing | unlocking)
      · cases storing
      · cases unlocking
  | notifying =>
      simp only [at_i] at onward
      cases onward
      apply waking.closerMove effect rfl (.inl rfl) ?_ (.inl rfl) fun _ => .inr rfl
      rintro (storing | unlocking)
      · cases storing
      · cases unlocking
  | returned =>
      rw [at_i] at onward
      cases onward

theorem Waking.close {i : Nat} (waking : Waking s) (free : (s.closers i).free = true)
    (effect : AsideEffect s (s.setCloser i .locking)) : Waking (s.setCloser i .locking) := by
  apply waking.closerMove effect rfl (.inl rfl) ?_ (.inl rfl) ?_
  · rintro (storing | unlocking)
    · cases storing
    · cases unlocking
  · intro owes
    cases at_i : s.closers i with
    | idle =>
        rw [at_i] at owes
        exact owes.elim
    | returned =>
        rw [at_i] at owes
        exact owes.elim
    | locking =>
        rw [at_i] at free
        cases free
    | storing =>
        rw [at_i] at free
        cases free
    | unlocking =>
        rw [at_i] at free
        cases free
    | notifying =>
        rw [at_i] at free
        cases free

/-! ## The consumer -/

/-- A step of the consumer, by what it does to the mutex. -/
theorem Waking.consumerMove (waking : Waking s) (effect : ConsumerEffect s t)
    (mutex : t.mutex = s.mutex ∨ s.mutex = none ∨ s.consumer.locked = true)
    (locked : t.consumer.locked = true → t.mutex = some .consumer)
    (watch : Watch t t.consumer) : Waking t := by
  have beside := effect.beside
  have kept {owner : MutexOwner} (other : owner ≠ .consumer) (held : s.mutex = some owner) :
      t.mutex = some owner := by
    rcases mutex with same | free | mine
    · exact same.trans held
    · rw [held] at free
      cases free
    · rw [waking.consumer mine] at held
      exact absurd (Option.some.inj held).symm other
  refine ⟨locked, fun pushed unlocking => ?_, fun i closing => ?_, watch⟩
  · rw [beside.producer] at unlocking
    exact kept nofun (waking.producer pushed unlocking)
  · rw [beside.closers] at closing
    exact kept nofun (waking.closer i closing)

/-- A step that neither touches the mutex nor leads into a wait. -/
theorem Waking.consumerElsewhere (waking : Waking s) (effect : ConsumerEffect s t)
    (mutex : t.mutex = s.mutex) (locked : t.consumer.locked = false)
    (watch : Watch t t.consumer) : Waking t := by
  refine waking.consumerMove effect (.inl mutex) ?_ watch
  rw [locked]
  nofun

theorem popLoop_watch (count : UInt64) (output : List Record) :
    (popLoop count output).locked = false ∧ Watch s (popLoop count output) := by
  unfold popLoop
  split
  · exact ⟨rfl, trivial⟩
  · exact ⟨rfl, trivial⟩

theorem decided_watch (taking : Taking) (count : UInt64) :
    (taking.decided count : Consumer Record).locked = false ∧ Watch s (taking.decided count) := by
  cases taking with
  | popBatch =>
      simp only [Taking.decided]
      split
      · exact ⟨rfl, trivial⟩
      · exact popLoop_watch _ _
  | processBatch => exact ⟨rfl, trivial⟩

/-- With the head and the tail found equal, the ring was empty at the load of
the head or has been filled since. -/
theorem empty_of_equal {n : Nat} (inv : s.Inv) (reserved : s.reserved ≤ n)
    (below : n ≤ s.ring.published.length)
    (equal : UInt64.ofNat n - s.ring.tail = 0) : n = s.ring.consumed.length := by
  have near := inv.sound.near
  have above : s.ring.consumed.length ≤ n := by
    unfold State.reserved at reserved
    omega
  have distance := toNat_ofNat_sub_ofNat above (by omega)
  rw [← inv.sound.tail, equal] at distance
  have zero : (0 : UInt64).toNat = 0 := rfl
  omega

theorem Waking.consumer_step [Inhabited Record] (inv : s.Inv) (waking : Waking s)
    (effect : ConsumerEffect s t) (onward : s.consumerStep = some t) : Waking t := by
  have watch := waking.watch
  have mine := waking.consumer
  unfold State.consumerStep at onward
  cases under : s.consumer with
  | idle =>
      rw [under] at onward
      cases onward
  | dataHead w site =>
      have reserved := reserved_le inv
      have same := effect.reserved (by rw [under]; rfl)
      rw [under] at mine
      simp only [under] at onward
      cases onward
      refine waking.consumerMove effect (.inl rfl) mine ?_
      exact ⟨_, inv.sound.head, same.le.trans reserved, Nat.le_refl _,
        fun _ later => absurd later (Nat.lt_irrefl _)⟩
  | dataTail w site head =>
      rw [under] at mine watch
      obtain ⟨n, rfl, reserved, below, will⟩ := watch
      simp only [under] at onward
      split at onward
      · cases onward
        refine waking.consumerMove effect (.inl rfl) ?_ (watch_onward site true nofun)
        rw [onward_locked]
        exact mine
      · next equal =>
          have empty := empty_of_equal inv reserved below (not_not.mp equal)
          cases onward
          refine waking.consumerMove effect (.inl rfl) mine ?_
          intro locked nonempty
          unfold State.nonempty at nonempty
          apply will locked
          rw [empty]
          exact nonempty
  | dataClosed w site =>
      rw [under] at mine watch
      simp only [under] at onward
      cases onward
      refine waking.consumerMove effect (.inl rfl) ?_ (watch_onward site _ ?_)
      · rw [onward_locked]
        exact mine
      · rintro rfl unclosed
        exact ⟨unclosed, watch rfl⟩
  | spinning w attempt =>
      simp only [under] at onward
      cases onward
      refine waking.consumerElsewhere effect rfl ?_ ?_
      · change Consumer.locked (if _ then _ else _) = false
        split
        · rfl
        · exact spinLoop_unlocked _
      · change Watch _ (if _ then _ else _)
        split
        · trivial
        · exact watch_spinLoop _
  | yielding w attempt =>
      simp only [under] at onward
      cases onward
      exact waking.consumerElsewhere effect rfl (spinLoop_unlocked _) (watch_spinLoop _)
  | backingOff w attempt =>
      simp only [under] at onward
      cases onward
      exact waking.consumerElsewhere effect rfl (backoffLoop_unlocked _) (watch_backoffLoop _)
  | parking w =>
      simp only [under] at onward
      cases onward
      exact waking.consumerElsewhere effect rfl rfl trivial
  | locking w =>
      simp only [under] at onward
      obtain ⟨locked, taken, rfl⟩ := Option.map_eq_some_iff.mp onward
      obtain ⟨free, rfl⟩ := lock_eq taken
      exact waking.consumerMove effect (.inr (.inl free)) (fun _ => rfl) trivial
  | blocking w =>
      rw [under] at watch
      obtain ⟨unclosed, will⟩ := watch
      simp only [under] at onward
      cases onward
      refine waking.consumerMove effect (.inr (.inr (by rw [under]; rfl))) nofun ?_
      refine ⟨fun closed => ?_, fun nonempty => (will nonempty).owes⟩
      rw [unclosed] at closed
      cases closed
  | blocked w =>
      rw [under] at onward
      cases onward
  | relocking w timedOut =>
      simp only [under] at onward
      obtain ⟨locked, taken, rfl⟩ := Option.map_eq_some_iff.mp onward
      obtain ⟨free, rfl⟩ := lock_eq taken
      exact waking.consumerMove effect (.inr (.inl free)) (fun _ => rfl) trivial
  | counting w awakened =>
      rw [under] at mine
      simp only [under] at onward
      cases onward
      exact waking.consumerMove effect (.inl rfl) mine trivial
  | unlocking w =>
      simp only [under] at onward
      cases onward
      refine waking.consumerMove effect (.inr (.inr (by rw [under]; rfl))) ?_ (watch_enter w.call)
      rw [enter_unlocked]
      nofun
  | rejecting taking maximum =>
      simp only [under] at onward
      split at onward
      · cases onward
        exact waking.consumerElsewhere effect rfl rfl trivial
      · cases taking with
        | popBatch =>
            cases onward
            exact waking.consumerElsewhere effect rfl rfl trivial
        | processBatch =>
            cases onward
            exact waking.consumerElsewhere effect rfl rfl trivial
  | depthTail taking maximum head =>
      simp only [under] at onward
      cases onward
      obtain ⟨locked, free⟩ := decided_watch taking _
      exact waking.consumerElsewhere effect rfl locked free
  | popping count output op =>
      simp only [under] at onward
      split at onward
      · cases onward
        exact waking.consumerElsewhere effect rfl rfl trivial
      · cases onward
        exact waking.consumerElsewhere effect rfl rfl trivial
      · cases onward
        exact waking.consumerElsewhere effect rfl rfl trivial
      · cases onward
  | popCounting count output =>
      simp only [under] at onward
      cases onward
      obtain ⟨locked, free⟩ := popLoop_watch count output
      exact waking.consumerElsewhere effect rfl locked free
  | processing count op =>
      simp only [under] at onward
      split at onward
      · split at onward
        · cases onward
          exact waking.consumerElsewhere effect rfl rfl trivial
        · cases onward
          exact waking.consumerElsewhere effect rfl rfl trivial
      · cases onward
        exact waking.consumerElsewhere effect rfl rfl trivial
      · cases onward
  | exchanging maximum =>
      simp only [under] at onward
      split at onward
      · cases onward
        exact waking.consumerElsewhere effect rfl rfl trivial
      · cases onward
        exact waking.consumerElsewhere effect rfl rfl trivial
  | leasing op =>
      simp only [under] at onward
      split at onward
      · cases onward
        exact waking.consumerElsewhere effect rfl rfl trivial
      · cases onward
        exact waking.consumerElsewhere effect rfl rfl trivial
      · cases onward
  | returned result =>
      rw [under] at onward
      cases onward
  | _ =>
      simp only [under] at onward
      cases onward
      exact waking.consumerElsewhere effect rfl rfl trivial

/-! ## Every interleaving -/

theorem Waking.call {consumer : Consumer Record} (waking : Waking s)
    (effect : ConsumerEffect s t) (locked : consumer.locked = false)
    (watch : ∀ r : State Record, Watch r consumer)
    (onward : (if s.consumer.free then some { s with consumer } else none) = some t) :
    Waking t := by
  split at onward
  · cases onward
    exact waking.consumerElsewhere effect rfl locked (watch _)
  · cases onward

theorem waking_step [Inhabited Record] {action : Action Record} (inv : s.Inv) (waking : Waking s)
    (onward : s.step action = some t) : Waking t := by
  cases action with
  | call call =>
      exact waking.call (call_effect inv (outside_enter call) onward) (enter_unlocked call)
        (fun _ => watch_enter call) onward
  | wait w =>
      exact waking.call (call_effect inv (outside_wait w) onward) (wait_unlocked w)
        (fun _ => watch_wait w) onward
  | consumer => exact waking.consumer_step inv (consumerStep_effect inv onward) onward
  | processorBusy =>
      have effect := processorBusy_effect inv onward
      simp only [State.step, State.processorBusy] at onward
      split at onward
      · cases onward
        exact waking.consumerElsewhere effect rfl rfl trivial
      · cases onward
  | leaseThrows error =>
      have effect := leaseThrows_effect inv onward
      simp only [State.step, State.leaseThrows] at onward
      split at onward
      · cases onward
        exact waking.consumerElsewhere effect rfl rfl trivial
      · cases onward
  | unblock timedOut =>
      have effect := unblock_effect inv onward
      simp only [State.step, State.unblock] at onward
      split at onward
      · cases onward
        exact waking.consumerElsewhere effect rfl rfl trivial
      · cases onward
  | pushBatch records =>
      simp only [State.step] at onward
      split at onward
      · next free =>
          cases onward
          have effect := inv.produced (t := { s with
            producer := Batch.loop ⟨records, 0⟩
            offered := s.offered + records.length })
            ⟨⟨rfl, rfl, rfl⟩, rfl, rfl, rfl, rfl, .inl rfl⟩ inv.sound (loop_fits _) (.refl _)
          exact waking.producerMove effect (pushBatch_notifies free records)
      · cases onward
  | producer =>
      exact waking.producerMove (producerStep_effect inv onward) (producerStep_notifies onward)
  | values index => exact waking.leaserMove (leaseCall_effect inv leaseChange_values onward)
  | closeLease index => exact waking.leaserMove (leaseCall_effect inv leaseChange_close onward)
  | viewClosed index =>
      exact waking.leaserMove (leaseCall_effect inv leaseChange_viewClosed onward)
  | leaser => exact waking.leaserMove (leaserStep_effect inv onward)
  | close i =>
      simp only [State.step] at onward
      split at onward
      · next free =>
          cases onward
          exact waking.close free (setCloser_effect inv i .locking)
      · cases onward
  | closer i => exact waking.closer_step (closerStep_effect inv onward).1 onward
  | monitor i =>
      obtain ⟨monitor, rfl⟩ := monitorStep_eq onward
      exact waking.unseen (setMonitor_effect inv i monitor) rfl rfl rfl rfl
  | observe i metrics =>
      simp only [State.step] at onward
      split at onward
      · cases onward
        exact waking.unseen (setMonitor_effect inv i _) rfl rfl rfl rfl
      · cases onward

theorem waking_of_reaches [Inhabited Record] {maxSize capacity : UInt64}
    (created : SpscRing.new maxSize capacity = .ok ring)
    (run : Reaches State.step (State.start ring) s) : s.Inv ∧ Waking s := by
  refine run.invariant (P := fun r => r.Inv ∧ Waking r)
    ⟨inv_start (SpscRing.new_sound created).1, waking_start ring⟩ ?_
  intro r action r' held onward
  exact ⟨(step_move held.1 onward).effect.inv, waking_step held.1 held.2 onward⟩

theorem closer_free_owes_nothing {closer : Closer} (free : closer.free = true) : ¬ closer.Owes := by
  cases closer with
  | idle => exact id
  | returned => exact id
  | locking => exact id
  | storing => exact id
  | unlocking => cases free
  | notifying => cases free

/-- While the consumer is blocked beside data or a closed ring, a notification
is on its way; with no push and no close under way it is blocked only on an
empty, open ring. -/
theorem no_lost_wakeup [Inhabited Record] {maxSize capacity : UInt64}
    (created : SpscRing.new maxSize capacity = .ok ring)
    (run : Reaches State.step (State.start ring) s) {w : Waiting}
    (blocked : s.consumer = .blocked w) :
    (s.ring.tail ≠ s.ring.head ∨ s.closed = true →
        s.producer.Owes ∨ ∃ i, (s.closers i).Owes) ∧
      (s.producer.free = true → (∀ i, (s.closers i).free = true) →
        s.ring.tail = s.ring.head ∧ s.closed = false) := by
  obtain ⟨inv, waking⟩ := waking_of_reaches created run
  have watch := waking.watch
  rw [blocked] at watch
  obtain ⟨closes, owes⟩ := watch
  have notified : s.ring.tail ≠ s.ring.head ∨ s.closed = true →
      s.producer.Owes ∨ ∃ i, (s.closers i).Owes := by
    rintro (nonempty | closed)
    · have different := mt inv.sound.empty_iff.mpr nonempty
      have ordered := inv.sound.ordered
      have data : s.nonempty := by
        unfold State.nonempty
        omega
      exact .inl (owes data)
    · exact .inr (closes closed)
  refine ⟨notified, fun free returned => ?_⟩
  have silent : ¬ (s.producer.Owes ∨ ∃ i, (s.closers i).Owes) := by
    rintro (owing | ⟨i, owing⟩)
    · exact free_owes_nothing free owing
    · exact closer_free_owes_nothing (returned i) owing
  have nothing := mt notified silent
  rw [not_or, not_not, Bool.not_eq_true] at nothing
  exact nothing

/-- The consumer parks at once. -/
def parkAtOnce : List (Action Nat) :=
  .wait ⟨.take .popBatch 1, 0, .positive, 0, .zero⟩ :: List.replicate 9 .consumer

theorem no_lost_wakeup_parked :
    ∃ s, exec State.step (State.start twoSlots) parkAtOnce = some s ∧
      s.ring.tail = s.ring.head ∧ s.closed = false := by
  have created : SpscRing.new 1000 2 = .ok twoSlots := rfl
  refine ⟨_, rfl, ?_⟩
  have run : exec State.step (State.start twoSlots) parkAtOnce = some _ := rfl
  exact (no_lost_wakeup created (reaches_of_exec run) rfl).2 rfl fun _ => rfl

end TickRing

end Gambit
