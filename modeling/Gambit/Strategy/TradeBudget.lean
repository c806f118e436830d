import Mathlib
import Gambit.Strategy.PositionLimit

/-!
# RollingTradeBudget

A window that ends now or later can only lose trades to time and gain those of
pending orders, so admission against the present window bounds all of them.
-/

set_option autoImplicit false

namespace Gambit

open Raising Traces Exposure

variable {W : Type} {strategy : Strategy W} {p : Point W}

namespace RollingTradeBudget

variable (budget : RollingTradeBudget)

def matchesContract (contract : Contract) : Bool :=
  match budget.level with
  | .portfolio | .strategy => true
  | .group => some contract.contractGroup = budget.key
  | .instrument => some contract.symbol = budget.key

theorem matchesOrder_eq (order : Order) :
    budget.matchesOrder order = budget.matchesContract order.contract := rfl

/-- The window that ends at `finish`. -/
def inWindow (finish : Timestamp) (trade : BookedTrade) : Bool :=
  finish - budget.window ≤ trade.timestamp ∧ trade.timestamp ≤ finish

/-- The quantity traded within the window. -/
def traded (finish : Timestamp) (trades : List BookedTrade) : ℚ :=
  ((trades.filter fun trade =>
    budget.inWindow finish trade ∧ budget.matchesOrder trade.order).map fun trade =>
      |(trade.qty : ℚ)|).sum

def charge (finish : Timestamp) : Charge where
  reserve := fun contract qty => if budget.matchesContract contract then |qty| else 0
  use := fun trade =>
    if budget.inWindow finish trade ∧ budget.matchesOrder trade.order then |(trade.qty : ℚ)| else 0
  nonneg := fun contract qty => by
    split
    · exact abs_nonneg _
    · exact le_refl 0
  settles := fun trade whole snapshot realised => by
    rw [matchesOrder_eq, snapshot]
    by_cases matching : budget.matchesContract trade.contract
    · rw [if_pos matching, if_pos matching]
      have parts := realised.abs_add
      by_cases inside : budget.inWindow finish trade
      · rw [if_pos ⟨inside, matching⟩]
        linarith
      · rw [if_neg fun both => inside both.1]
        have taken := abs_nonneg (trade.qty : ℚ)
        linarith
    · rw [if_neg matching, if_neg matching, if_neg fun both => matching both.2, add_zero]

theorem used_charge (finish : Timestamp) (trades : List BookedTrade) :
    (budget.charge finish).used trades = budget.traded finish trades := by
  induction trades with
  | nil => rfl
  | cons trade trades ih =>
      rw [Charge.used] at ih
      rw [Charge.used, List.map_cons, List.sum_cons, ih]
      by_cases counted : budget.inWindow finish trade ∧ budget.matchesOrder trade.order
      · simp [charge, traded, counted]
      · simp only [charge, traded, if_neg counted, zero_add]
        rw [List.filter_cons_of_neg (by simpa using counted)]

/-- Of what is traded by now, a later window holds no more than the present one. -/
theorem traded_le {now finish : Timestamp} (later : now ≤ finish) {trades : List BookedTrade}
    (past : ∀ trade ∈ trades, trade.timestamp ≤ now) :
    budget.traded finish trades ≤ budget.traded now trades := by
  rw [← used_charge, ← used_charge]
  refine List.sum_le_sum fun trade member => ?_
  have now' := past trade member
  simp only [charge]
  by_cases counted : budget.inWindow finish trade ∧ budget.matchesOrder trade.order
  · have inside := of_decide_eq_true counted.1
    have present : budget.inWindow now trade ∧ budget.matchesOrder trade.order :=
      ⟨decide_eq_true ⟨(sub_le_sub_right later _).trans inside.1, now'⟩, counted.2⟩
    rw [if_pos counted, if_pos present]
  · rw [if_neg counted]
    split
    · exact abs_nonneg _
    · exact le_refl 0

theorem evaluate_within {p : Point W} (sound : Sound strategy p) {order : Order}
    {result : PolicyResult}
    (run : budget.evaluate p.engine.heap
      ⟨p.engine.account, strategy.timestamp p.heartbeat, p.pending⟩ order = .ok result)
    (approved : result.accepted) :
    budget.traded (strategy.timestamp p.heartbeat) p.trades +
      (budget.charge (strategy.timestamp p.heartbeat)).reserved p + |order.qty| ≤
        budget.maximumQuantity := by
  obtain ⟨trades, found, run⟩ := bind_ok.mp run
  have distinct := (List.nodup_append.mp sound.distinct).1
  obtain ⟨_, listed⟩ := refuse_ok.mp found
  cases listed
  have executed : budget.traded (strategy.timestamp p.heartbeat) p.trades =
      (((p.trades.filter fun trade =>
        strategy.timestamp p.heartbeat - budget.window ≤ trade.timestamp ∧
          trade.timestamp ≤ strategy.timestamp p.heartbeat).filter fun trade =>
        budget.matchesOrder trade.order).map fun trade => |(trade.qty : ℚ)|).sum := by
    rw [traded, List.filter_filter]
    congr 2
    refine List.filter_congr fun trade _ => ?_
    simp [inWindow, Bool.and_comm]
  have pending : (budget.charge (strategy.timestamp p.heartbeat)).reserved p =
      (((p.pending.map p.order).filter fun pending =>
        pending.isOpen ∧ budget.matchesOrder pending).map fun pending => |pending.qty|).sum := by
    rw [reserved_eq_sum _ distinct]
    generalize p.pending = ids
    induction ids with
    | nil => rfl
    | cons id ids ih =>
        by_cases live : (p.order id).isOpen
        · by_cases matching : budget.matchesContract (p.order id).contract
          · simp [live, matching, matchesOrder_eq, charge] at ih ⊢
            exact ih
          · simp [live, matching, matchesOrder_eq, charge] at ih ⊢
            exact ih
        · simp [live] at ih ⊢
          exact ih
  rw [executed, pending]
  by_contra exceeded
  have refused := (if_pos (not_le.mp exceeded)).symm.trans run
  cases refused
  cases approved

def limit (asked : (budget.policy : RiskPolicy W) ∈ strategy.riskPolicies) : Limit strategy where
  policy := budget.policy
  asked := asked
  bound := budget.maximumQuantity
  bound_nonneg := budget.maximumPositive.le
  charges := { charge | ∃ finish, charge = budget.charge finish }
  screened := fun now => { charge | ∃ finish, now ≤ finish ∧ charge = budget.charge finish }
  antitone := fun _ _ earlier _ ⟨finish, later, same⟩ => ⟨finish, earlier.trans later, same⟩
  spent := by
    rintro _ ⟨finish, rfl⟩ now absent trade rfl
    refine if_neg fun counted => absent ⟨finish, ?_, rfl⟩
    exact (of_decide_eq_true counted.1).2
  screens := by
    rintro engine after i orders accepted undecided order policies result p sound run approved room
      _ ⟨finish, later, rfl⟩
    have before := room _ ⟨finish, later, rfl⟩
    by_cases matching : budget.matchesContract (p.order order).contract
    · have reserves : (budget.charge finish).reserve (p.order order).contract (p.order order).qty =
          |(p.order order).qty| := if_pos matching
      have now := budget.evaluate_within sound (consult_reading run) approved
      have window := budget.traded_le later sound.trades_past
      have same : (budget.charge finish).reserved p =
          (budget.charge (strategy.timestamp p.heartbeat)).reserved p := rfl
      rw [reserves, used_charge, same]
      exact (add_le_add (add_le_add window le_rfl) le_rfl).trans now
    · have unreserved : (budget.charge finish).reserve (p.order order).contract
          (p.order order).qty = 0 := if_neg matching
      rw [unreserved, add_zero]
      exact before

end RollingTradeBudget

/-- Under the policy no window of the run holds more than the maximum. -/
theorem trade_budget_kept (strategy : Strategy W) (budget : RollingTradeBudget)
    (asked : (budget.policy : RiskPolicy W) ∈ strategy.riskPolicies)
    (startDate endDate : Option Timestamp) (world : W) (heap : Heap) (k : Nat) (p : Point W)
    (at_k : (strategy.trace startDate endDate world heap)[k]? = some p) (finish : Timestamp)
    (n : Nat) :
    ((((p.trades.take n).filter fun trade => finish - budget.window ≤ trade.timestamp ∧
        trade.timestamp ≤ finish ∧ budget.matchesOrder trade.order).map fun trade =>
          |(trade.qty : ℚ)|).sum) ≤ budget.maximumQuantity := by
  have within := (budget.limit asked).trace_within at_k
  have kept := within.kept _ ⟨finish, rfl⟩ n
  rw [RollingTradeBudget.used_charge, RollingTradeBudget.traded] at kept
  have same : ∀ trade : BookedTrade,
      decide (budget.inWindow finish trade ∧ budget.matchesOrder trade.order) =
        decide (finish - budget.window ≤ trade.timestamp ∧
          trade.timestamp ≤ finish ∧ budget.matchesOrder trade.order) := fun trade => by
    simp [RollingTradeBudget.inWindow, and_assoc]
  simp only [same] at kept
  exact kept

/-- An order of ten against a budget of fourteen, of which four are traded. -/
theorem trade_budget_kept_pending :
    let budget : RollingTradeBudget := ⟨14, nanosPerDay, .portfolio, none, none,
      "rolling_trade_budget", by norm_num, by decide, rfl⟩
    let strategy := sampleStrategy 0 [budget.policy]
      (fun heap i => (heap, if i = 0 then [0] else [])) fillFour
    ∃ p : Point Unit, (strategy.trace none none () sampleHeap)[9]? = some p ∧
      fillsOf p.trades 0 = 4 ∧
      ((((p.trades.take 1).filter fun trade => sampleTime 0 - nanosPerDay ≤ trade.timestamp ∧
        trade.timestamp ≤ sampleTime 0 ∧ budget.matchesOrder trade.order).map fun trade =>
          |(trade.qty : ℚ)|).sum) ≤ 14 := by
  intro budget strategy
  have traded : ((strategy.trace none none () sampleHeap)[9]?).any
      fun p => fillsOf p.trades 0 = 4 := by decide +kernel
  obtain ⟨p, at_k, traded⟩ := (Option.any_eq_true _ _).mp traded
  exact ⟨p, at_k, of_decide_eq_true traded, trade_budget_kept strategy budget
    (List.mem_singleton_self _) none none () sampleHeap 9 p at_k (sampleTime 0) 1⟩

end Gambit
