import Gambit.TickRing.Wakeups

/-!
# The depth that an observer reports

`depth()` loads the head and then the tail.  The difference is a number of
records as long as nobody consumes past the head that was loaded.  The consumer
itself cannot; an observer is safe from it while it holds the interpreter lock,
under which the consumer decides how many records it takes.
-/

set_option autoImplicit false

open CircularWindow Machines

namespace Gambit

namespace TickRing

open SpscRing (TryPush TryPop Consume SpanRead Release ReadSpan Produced Consumed)

variable {Record : Type} {ring ring' : SpscRing Record} {s t : State Record}

/-! ## The interpreter lock -/

inductive Caller where
  | consumer
  | leaser
  | monitor (i : Nat)

/-- The stretches of the consumer's calls that hold the interpreter lock. -/
def Consumer.holds : Consumer Record → Bool
  | .rejecting _ _ => true
  | .accessing _ => true
  | .depthHead _ _ => true
  | .depthTail _ _ _ => true
  | .exchanging _ => true
  | .leasing _ => true
  | .making _ => true
  | .abandoning _ => true
  | _ => false

/-- The loads of `depth()` and `metrics()` hold it. -/
def Monitor.holds (monitor : Monitor) : Bool := !monitor.free

def State.Holds (s : State Record) : Caller → Prop
  | .consumer => s.consumer.holds = true
  | .leaser => s.leaser ≠ .idle
  | .monitor i => (s.monitors i).holds = true

/-- At most one thread is in such a stretch. -/
def State.Locked (s : State Record) : Prop := ∀ a b, s.Holds a → s.Holds b → a = b

/-- Runs of calls that all come through the interpreter. -/
def PythonReaches [Inhabited Record] : State Record → State Record → Prop :=
  Relation.ReflTransGen fun s t => Moves State.step s t ∧ t.Locked

/-! ## The value of the two loads -/

/-- The head was loaded when `n` records were published. -/
structure Loaded (s : State Record) (head : UInt64) (n : Nat) : Prop where
  head : head = UInt64.ofNat n
  published : n ≤ s.ring.published.length

theorem Loaded.distance {head : UInt64} {n : Nat} (loaded : Loaded s head n) (inv : s.Inv)
    (unpassed : s.ring.consumed.length ≤ n) :
    (head - s.ring.tail).toNat = n - s.ring.consumed.length ∧
      head - s.ring.tail ≤ s.ring.capacity.value := by
  have near := inv.sound.near
  have bounded := inv.sound.bounded
  have below := loaded.published
  have distance : (head - s.ring.tail).toNat = n - s.ring.consumed.length := by
    rw [loaded.head, inv.sound.tail]
    exact toNat_ofNat_sub_ofNat unpassed (by omega)
  refine ⟨distance, UInt64.le_iff_toNat_le.mpr ?_⟩
  rw [distance]
  omega

/-- Consumed past the head: the difference has wrapped. -/
theorem Loaded.wrapped {head : UInt64} {n : Nat} (loaded : Loaded s head n) (inv : s.Inv)
    (passed : n < s.ring.consumed.length) (near : s.ring.consumed.length - n ≤ 2 ^ 64) :
    (head - s.ring.tail).toNat = 2 ^ 64 - (s.ring.consumed.length - n) := by
  rw [loaded.head, inv.sound.tail]
  exact toNat_ofNat_sub_ofNat_of_behind passed near

theorem Loaded.later {head : UInt64} {n : Nat} (loaded : Loaded s head n) (move : Move s t) :
    Loaded t head n :=
  ⟨loaded.head, loaded.published.trans move.effect.longer.2⟩

/-- Every monitor between its two loads has loaded a head. -/
def Loads (s : State Record) : Prop :=
  ∀ i metrics head n, s.monitors i = .depthTail metrics head n → Loaded s head n

/-- A step of a monitor, by what it reports afterwards. -/
theorem monitorStep_cases {i : Nat} (onward : s.monitorStep i = some t) :
    ∃ monitor, t = s.setMonitor i monitor ∧
      ((∃ metrics, s.monitors i = .depthHead metrics ∧ monitor.reported = none ∧
          monitor = .depthTail metrics s.ring.head s.ring.published.length) ∨
        (∃ metrics head n, s.monitors i = .depthTail metrics head n ∧
          monitor.reported = some (head - s.ring.tail) ∧
          ∀ metrics head n, monitor ≠ .depthTail metrics head n) ∨
        monitor.reported = (s.monitors i).reported ∧
          ∀ metrics head n, monitor ≠ .depthTail metrics head n) := by
  unfold State.monitorStep at onward
  cases at_i : s.monitors i with
  | idle =>
      rw [at_i] at onward
      cases onward
  | depthHead metrics =>
      simp only [at_i] at onward
      exact ⟨_, (Option.some.inj onward).symm, .inl ⟨metrics, rfl, rfl, rfl⟩⟩
  | depthTail metrics head n =>
      simp only [at_i] at onward
      refine ⟨_, (Option.some.inj onward).symm, .inr (.inl ⟨metrics, head, n, rfl, ?_, ?_⟩)⟩
      · cases metrics <;> rfl
      · cases metrics <;> nofun
  | loadCounter depth loaded =>
      simp only [at_i] at onward
      split at onward
      · exact ⟨_, (Option.some.inj onward).symm, .inr (.inr ⟨rfl, nofun⟩)⟩
      · exact ⟨_, (Option.some.inj onward).symm, .inr (.inr ⟨rfl, nofun⟩)⟩
  | loadClosed depth loaded =>
      simp only [at_i] at onward
      exact ⟨_, (Option.some.inj onward).symm, .inr (.inr ⟨rfl, nofun⟩)⟩
  | loadLease depth loaded closed =>
      simp only [at_i] at onward
      exact ⟨_, (Option.some.inj onward).symm, .inr (.inr ⟨rfl, nofun⟩)⟩
  | answered depth =>
      rw [at_i] at onward
      cases onward
  | snapshot metrics =>
      rw [at_i] at onward
      cases onward

/-- Only the monitor that steps changes its place. -/
theorem Move.monitors (move : Move s t) :
    t.monitors = s.monitors ∨ ∃ i, s.monitorStep i = some t ∨
      ∃ metrics, (s.monitors i).free = true ∧ t = s.setMonitor i (.depthHead metrics) := by
  cases move with
  | producer effect => exact .inl effect.frame.monitors
  | consumer effect => exact .inl effect.beside.monitors
  | leaser effect => exact .inl effect.frame.monitors
  | closer i effect same => exact .inl same
  | monitor i effect step => exact .inr ⟨i, step⟩

theorem setMonitor_monitors (s : State Record) (i j : Nat) (monitor : Monitor) :
    (s.setMonitor i monitor).monitors j = if j = i then monitor else s.monitors j :=
  Function.update_apply s.monitors i monitor j

theorem Loads.move (loads : Loads s) (inv : s.Inv) (move : Move s t) : Loads t := by
  intro j metrics head n at_j
  have kept (same : t.monitors j = s.monitors j) : Loaded t head n := by
    rw [same] at at_j
    exact (loads j metrics head n at_j).later move
  rcases move.monitors with same | ⟨i, onward | ⟨kind, _, rfl⟩⟩
  · exact kept (by rw [same])
  · obtain ⟨monitor, rfl, step⟩ := monitorStep_cases onward
    by_cases here : j = i
    · subst here
      rw [setMonitor_monitors, if_pos rfl] at at_j
      rcases step with ⟨_, _, _, loading⟩ | ⟨_, _, _, _, _, other⟩ | ⟨_, other⟩
      · rw [loading] at at_j
        cases at_j
        exact ⟨inv.sound.head, Nat.le_refl _⟩
      · exact absurd at_j (other _ _ _)
      · exact absurd at_j (other _ _ _)
    · apply kept
      rw [setMonitor_monitors, if_neg here]
  · by_cases here : j = i
    · subst here
      rw [setMonitor_monitors, if_pos rfl] at at_j
      cases at_j
    · apply kept
      rw [setMonitor_monitors, if_neg here]

/-! ## Under the interpreter lock -/

/-- Nothing is decided past a head between the two loads, and what has been
reported is in range. -/
structure InRange (s : State Record) : Prop where
  unpassed : ∀ i metrics head n, s.monitors i = .depthTail metrics head n → s.reserved ≤ n
  reported : ∀ i depth, (s.monitors i).reported = some depth → depth ≤ s.ring.capacity.value

/-- While a monitor is between its loads, the consumer decides nothing. -/
theorem reserved_same {i : Nat} {metrics : Bool} {head : UInt64} {n : Nat} (locked : s.Locked)
    (at_i : s.monitors i = .depthTail metrics head n) (move : Move s t) :
    t.reserved = s.reserved := by
  apply move.effect.reserved
  have monitoring : s.Holds (.monitor i) := by
    change (s.monitors i).holds = true
    rw [at_i]
    rfl
  have outside : s.consumer.holds ≠ true := by
    intro holds
    have same := locked (.consumer) (.monitor i) holds monitoring
    cases same
  cases under : s.consumer with
  | depthTail taking maximum loaded =>
      rw [under] at outside
      exact absurd rfl outside
  | making span =>
      rw [under] at outside
      exact absurd rfl outside
  | _ => rfl

theorem InRange.move (range : InRange s) (inv : s.Inv) (loads : Loads s) (locked : s.Locked)
    (move : Move s t) : InRange t := by
  have capacity := move.effect.capacity
  have unpassed_kept {j : Nat} (same : t.monitors j = s.monitors j) (metrics : Bool)
      (head : UInt64) (n : Nat) (at_j : t.monitors j = .depthTail metrics head n) :
      t.reserved ≤ n := by
    rw [same] at at_j
    rw [reserved_same locked at_j move]
    exact range.unpassed j metrics head n at_j
  have reported_kept {j : Nat} (same : (t.monitors j).reported = (s.monitors j).reported)
      (depth : UInt64) (at_j : (t.monitors j).reported = some depth) :
      depth ≤ t.ring.capacity.value := by
    rw [capacity]
    rw [same] at at_j
    exact range.reported j depth at_j
  rcases move.monitors with same | ⟨i, onward | ⟨kind, free, rfl⟩⟩
  · constructor
    · exact fun j => unpassed_kept (by rw [same])
    · exact fun j => reported_kept (by rw [same])
  · obtain ⟨monitor, rfl, step⟩ := monitorStep_cases onward
    constructor
    · intro j metrics head n at_j
      by_cases here : j = i
      · subst here
        rw [setMonitor_monitors, if_pos rfl] at at_j
        rcases step with ⟨_, _, _, loading⟩ | ⟨_, _, _, _, _, other⟩ | ⟨_, other⟩
        · rw [loading] at at_j
          cases at_j
          exact reserved_le move.effect.inv
        · exact absurd at_j (other _ _ _)
        · exact absurd at_j (other _ _ _)
      · exact unpassed_kept (by rw [setMonitor_monitors, if_neg here]) metrics head n at_j
    · intro j depth at_j
      by_cases here : j = i
      · subst here
        rcases step with ⟨_, _, none, _⟩ | ⟨metrics, head, n, from_tail, some, _⟩ | ⟨same, _⟩
        · rw [setMonitor_monitors, if_pos rfl, none] at at_j
          cases at_j
        · rw [setMonitor_monitors, if_pos rfl, some] at at_j
          cases at_j
          have above := range.unpassed j metrics head n from_tail
          refine ((loads j metrics head n from_tail).distance inv ?_).2
          unfold State.reserved at above
          omega
        · refine reported_kept ?_ depth at_j
          rw [setMonitor_monitors, if_pos rfl]
          exact same
      · exact reported_kept (by rw [setMonitor_monitors, if_neg here]) depth at_j
  · constructor
    · intro j metrics head n at_j
      by_cases here : j = i
      · subst here
        rw [setMonitor_monitors, if_pos rfl] at at_j
        cases at_j
      · exact unpassed_kept (by rw [setMonitor_monitors, if_neg here]) metrics head n at_j
    · intro j depth at_j
      by_cases here : j = i
      · subst here
        rw [setMonitor_monitors, if_pos rfl] at at_j
        cases at_j
      · exact reported_kept (by rw [setMonitor_monitors, if_neg here]) depth at_j

theorem loads_of_reaches [Inhabited Record] {maxSize capacity : UInt64}
    (created : SpscRing.new maxSize capacity = .ok ring)
    (run : Reaches State.step (State.start ring) s) : s.Inv ∧ Loads s :=
  reaches_invariant (P := Loads) (inv_start (SpscRing.new_sound created).1)
    (fun _ _ _ _ at_i => by cases at_i) (fun _ _ inv loads move => loads.move inv move) run

theorem inRange_of_reaches [Inhabited Record] {maxSize capacity : UInt64}
    (created : SpscRing.new maxSize capacity = .ok ring)
    (run : PythonReaches (State.start ring) s) :
    s.Inv ∧ Loads s ∧ s.Locked ∧ InRange s := by
  induction run with
  | refl =>
      refine ⟨inv_start (SpscRing.new_sound created).1, ?_, ?_, ?_, ?_⟩
      · intro i metrics head n at_i
        cases at_i
      · intro a b holds _
        cases a with
        | consumer => cases holds
        | leaser => exact absurd rfl holds
        | monitor i => cases holds
      · intro i metrics head n at_i
        cases at_i
      · intro i depth reported
        cases reported
  | tail _ onward ih =>
      obtain ⟨inv, loads, locked, range⟩ := ih
      obtain ⟨⟨action, step⟩, locked'⟩ := onward
      have move := step_move inv step
      exact ⟨move.effect.inv, loads.move inv move, locked', range.move inv loads locked move⟩

/-- A monitor loads the head of the empty ring; a record is pushed and popped
before it loads the tail. -/
def overtaken : List (Action Nat) :=
  [.observe 0 false, .monitor 0, .pushBatch [5]] ++ List.replicate 9 .producer ++
    [.call (.take .popBatch 1)] ++ List.replicate 8 .consumer ++ [.monitor 0]

end TickRing

end Gambit
