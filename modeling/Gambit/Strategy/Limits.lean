import Gambit.Strategy.Reservation

/-!
# Policies that keep charges within a bound

Where a policy screens a charge, no run uses and reserves more of it than the
bound: admission is decided once, and steps that admit nothing only free room.
-/

set_option autoImplicit false

namespace Gambit

open Raising Traces Exposure OrderCallbackState

variable {W : Type} {strategy : Strategy W} {p q : Point W} {id : OrderId}
  {batch : List BookedTrade}

theorem timestamp_mono {i j : Nat} (ordered : i ≤ j)
    (inside : j < strategy.setup.timestamps.timestamps.length) :
    strategy.timestamp i ≤ strategy.timestamp j := by
  have at_i : strategy.setup.timestamps.timestamps[i]? = some (strategy.timestamp i) :=
    timestamp_at (by omega)
  have at_j := timestamp_at inside
  rcases ordered.eq_or_lt with rfl | less
  · exact le_refl _
  · obtain ⟨_, own⟩ := List.getElem?_eq_some_iff.mp at_i
    obtain ⟨_, other⟩ := List.getElem?_eq_some_iff.mp at_j
    rw [← own, ← other]
    exact (List.pairwise_iff_getElem.mp strategy.setup.timestamps.increasing i j _ _ less).le

theorem Sound.trades_past {p : Point W} (sound : Sound strategy p) :
    ∀ trade ∈ p.trades, trade.timestamp ≤ strategy.timestamp p.heartbeat := by
  intro trade member
  obtain ⟨j, le, at_j⟩ := sound.past trade member
  have own := timestamp_at (i := j) (Nat.lt_of_le_of_lt le sound.inside)
  rw [at_j] at own
  rw [Option.some.inj own]
  exact timestamp_mono le sound.inside

/-- The charges that a policy of the strategy limits; at a time it screens those
that trades at that time or later may use. -/
structure Limit (strategy : Strategy W) where
  policy : RiskPolicy W
  asked : policy ∈ strategy.riskPolicies
  bound : ℚ
  bound_nonneg : 0 ≤ bound
  charges : Set Charge
  screened : Timestamp → Set Charge
  antitone : ∀ t t', t ≤ t' → screened t' ⊆ screened t
  spent : ∀ charge ∈ charges, ∀ t, charge ∉ screened t →
    ∀ trade : BookedTrade, trade.timestamp = t → charge.use trade = 0
  screens : ∀ {engine after : Engine W} {i : Nat} {orders accepted undecided : List OrderId}
    {order : OrderId} {policies : List (RiskPolicy W)} {result : PolicyResult},
    let p : Point W := ⟨engine, i, .deciding orders accepted (order :: undecided) policies⟩
    Sound strategy p → strategy.consult i orders accepted order policy engine = .ok (after, result) →
    result.accepted →
    (∀ charge ∈ screened (strategy.timestamp i), charge.used p.trades + charge.reserved p ≤ bound) →
    ∀ charge ∈ screened (strategy.timestamp i), charge.used p.trades + charge.reserved p +
      charge.reserve (p.order order).contract (p.order order).qty ≤ bound

namespace Limit

variable (limit : Limit strategy)

/-- There is room for the order as well. -/
def Cleared (p : Point W) (order : OrderId) : Prop :=
  ∀ charge ∈ limit.screened (strategy.timestamp p.heartbeat), charge.used p.trades +
    charge.reserved p + charge.reserve (p.order order).contract (p.order order).qty ≤ limit.bound

structure Within (p : Point W) : Prop where
  room : ∀ charge ∈ limit.screened (strategy.timestamp p.heartbeat),
    charge.used p.trades + charge.reserved p ≤ limit.bound
  cleared : ∀ orders accepted order undecided policies,
    p.control = .deciding orders accepted (order :: undecided) policies →
      limit.policy ∈ policies ∨ limit.Cleared p order
  kept : ∀ charge ∈ limit.charges, ∀ n, charge.used (p.trades.take n) ≤ limit.bound

variable {limit}

/-- What a step that admits no order leaves of the room. -/
theorem Within.room_after (within : limit.Within p) (effect : Effect strategy p q batch)
    (kept : ∀ id ∈ q.pending, id ∈ p.pending) :
    ∀ charge ∈ limit.screened (strategy.timestamp q.heartbeat),
      charge.used q.trades + charge.reserved q ≤ limit.bound := by
  intro charge member
  have before := within.room charge
    (limit.antitone _ _ (timestamp_mono effect.onward effect.inside) member)
  exact (effect.exposure_le charge kept).trans before

/-- A consultation does not take the room it found. -/
theorem cleared_consult {engine after : Engine W} {i : Nat}
    {orders accepted undecided : List OrderId} {order : OrderId}
    {policies rest : List (RiskPolicy W)} (guarded : Guarded
      (order :: (engine.currentOrders ++ accepted)) (engine.orders ++ orders) engine after)
    (effect : Effect strategy ⟨engine, i, .deciding orders accepted (order :: undecided) policies⟩
      ⟨after, i, .deciding orders accepted (order :: undecided) rest⟩ batch)
    (cleared : limit.Cleared ⟨engine, i, .deciding orders accepted (order :: undecided) policies⟩
      order) :
    limit.Cleared ⟨after, i, .deciding orders accepted (order :: undecided) rest⟩ order := by
  intro charge member
  have room := cleared charge member
  have exposure := effect.exposure_le charge fun id pending => by
    rwa [Point.pending, Point.currentOrders, guarded.currentOrders] at pending
  obtain ⟨contract, _, _, qty, _⟩ := capture_eq_iff.mp (guarded.captured order (List.mem_cons_self ..))
  simp only [Point.order] at room ⊢
  rw [contract, qty]
  linarith

theorem Within.cleared_after (within : limit.Within p) (sound : Sound strategy p)
    (step : strategy.Step p q) :
    ∀ orders accepted order undecided policies,
      q.control = .deciding orders accepted (order :: undecided) policies →
        limit.policy ∈ policies ∨ limit.Cleared q order := by
  intro orders accepted order undecided policies deciding
  obtain ⟨batch, effect⟩ := step_effect sound step
  cases step with
  | propose | accept | reject =>
      cases deciding
      exact Or.inl limit.asked
  | @consult engine after i orders accepted undecided order policy policies result run =>
      cases deciding
      have guarded := consult_yields.of_ok run
      rcases within.cleared _ _ _ _ _ rfl with waiting | cleared
      · by_cases approved : result.accepted
        · rw [if_pos approved] at effect ⊢
          rcases List.mem_cons.mp waiting with rfl | later
          · exact Or.inr (cleared_consult guarded effect
              (limit.screens sound run approved within.room))
          · exact Or.inl later
        · rw [if_neg approved]
          exact Or.inl waiting
      · exact Or.inr (cleared_consult guarded effect cleared)
  | _ => cases deciding

theorem Within.kept_after (within : limit.Within p) (effect : Effect strategy p q batch) :
    ∀ charge ∈ limit.charges, ∀ n, charge.used (q.trades.take n) ≤ limit.bound := by
  intro charge listed n
  rw [effect.trades, List.take_append, charge.used_append]
  by_cases inside : n ≤ p.trades.length
  · rw [Nat.sub_eq_zero_of_le inside, List.take_zero]
    simpa [Charge.used] using within.kept charge listed n
  · rw [List.take_of_length_le (by omega)]
    by_cases screened : charge ∈ limit.screened (strategy.timestamp p.heartbeat)
    · have covered := effect.covers charge (n - p.trades.length)
      have remains : 0 ≤ ∑ id ∈ p.openOrders, charge.reserve (p.order id).contract
          ((p.order id).qty - fillsOf (batch.take (n - p.trades.length)) id) :=
        Finset.sum_nonneg fun _ _ => charge.nonneg _ _
      have room := within.room charge screened
      linarith
    · have unused : charge.used (batch.take (n - p.trades.length)) = 0 :=
        List.sum_eq_zero fun used member => by
          obtain ⟨trade, traded, rfl⟩ := List.mem_map.mp member
          exact limit.spent charge listed _ screened trade
            (effect.booked trade (List.mem_of_mem_take traded)).timestamp
      have whole := within.kept charge listed p.trades.length
      rw [List.take_length] at whole
      linarith

theorem step_within (within : limit.Within p) (sound : Sound strategy p)
    (step : strategy.Step p q) : limit.Within q where
  room := by
    obtain ⟨batch, effect⟩ := step_effect sound step
    rcases step_admits sound step with kept | ⟨order, admits⟩
    · exact within.room_after effect kept
    · intro charge member
      obtain ⟨⟨heap, account, current, heartbeat⟩, orders, accepted, undecided, before, after⟩ := admits
      rw [heartbeat] at member
      -- every policy has been asked
      have cleared := (within.cleared _ _ _ _ _ before).resolve_left (by simp)
      have trades : q.trades = p.trades := congrArg Account.trades account
      rw [trades]
      have grown := Admits.reserved_le charge
        ⟨⟨heap, account, current, heartbeat⟩, orders, accepted, undecided, before, after⟩
      have room := cleared charge member
      linarith
  cleared := within.cleared_after sound step
  kept := by
    obtain ⟨batch, effect⟩ := step_effect sound step
    exact within.kept_after effect

theorem start_within (world : W) (heap : Heap) : limit.Within (Strategy.start world heap) where
  room := fun charge _ => by
    have none : (Strategy.start world heap).openOrders = ∅ := rfl
    have unused : charge.used (Strategy.start world heap).trades = 0 := rfl
    rw [Charge.reserved, none, Finset.sum_empty, unused, zero_add]
    exact limit.bound_nonneg
  cleared := fun _ _ _ _ _ deciding => by cases deciding
  kept := fun charge _ n => by
    have unused : charge.used ((Strategy.start world heap).trades.take n) = 0 := by
      cases n <;> rfl
    rw [unused]
    exact limit.bound_nonneg

theorem trace_within (limit : Limit strategy) {startDate endDate : Option Timestamp} {world : W}
    {heap : Heap} {k : Nat}
    (at_k : (strategy.trace startDate endDate world heap)[k]? = some p) : limit.Within p := by
  obtain ⟨last, trace⟩ := Strategy.trace_steps strategy startDate endDate world heap
  refine (trace.invariant (P := fun p => Sound strategy p ∧ limit.Within p) ?_ ?_ at_k).2
  · exact ⟨start_sound strategy world heap, start_within world heap⟩
  · exact fun p q now step => ⟨step_sound now.1 step, step_within now.2 now.1 step⟩

end Limit

/-! ## Consulting a policy that reads -/

theorem consult_reading {engine after : Engine W} {i : Nat} {orders accepted : List OrderId}
    {order : OrderId} {name : String}
    {evaluate : Heap → RiskContext → Order → Except Exn PolicyResult} {result : PolicyResult}
    (run : strategy.consult i orders accepted order (.reading name evaluate) engine =
      .ok (after, result)) :
    evaluate engine.heap ⟨engine.account, strategy.timestamp i, engine.currentOrders ++ accepted⟩
      (engine.heap.order order) = .ok result := by
  obtain ⟨answer, guarded, run⟩ := bind_ok.mp run
  unfold Engine.guarded at guarded
  split at guarded
  · rename_i attempted
    cases guarded
    obtain ⟨evaluated, outcome, attempted⟩ := bind_ok.mp attempted
    obtain ⟨_, _, attempted⟩ := bind_ok.mp attempted
    cases attempted
    have returned := raiseIn_ok.mp outcome
    simp only [RiskPolicy.reading] at returned
    cases evaluation : evaluate engine.heap
        ⟨engine.account, strategy.timestamp i, engine.currentOrders ++ accepted⟩
        (engine.heap.order order) with
    | ok value =>
        rw [evaluation] at returned
        cases returned
        cases run
        rfl
    | error error =>
        rw [evaluation] at returned
        cases returned
  · cases guarded

end Gambit
