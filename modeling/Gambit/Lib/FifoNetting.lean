import Mathlib.Tactic
import Mathlib.Algebra.BigOperators.Group.List.Basic
import Mathlib.Algebra.Order.Ring.Int

/-!
# First-in first-out netting of signed lots

A book is a list of signed lots, oldest first.  A signed trade is set against
the oldest lots of the other side; what remains of it opens a new lot.  The
lots of a legal book are nonzero and all of one side.  The closed pieces are
kept as a list of matches, so that a profit is a sum over matches and nothing
else.
-/

set_option autoImplicit false

namespace FifoNetting

variable {P : Type}

structure Lot (P : Type) where
  qty : Int
  price : P
deriving DecidableEq, Repr

/-- One closed lot piece: its signed quantity, its price, the closing price. -/
structure Match (P : Type) where
  lotQty : Int
  lotPrice : P
  closePrice : P
deriving DecidableEq, Repr

structure Netted (P : Type) where
  lots : List (Lot P)
  closed : List (Match P)
deriving DecidableEq, Repr

def SameSide (a b : Int) : Prop := a.sign = b.sign

instance (a b : Int) : Decidable (SameSide a b) := inferInstanceAs (Decidable (a.sign = b.sign))

/-- The textbook rule: the trade closes the oldest opposite lots first, and
any residual quantity opens a lot at the trade's price. -/
def net (price : P) : Int → List (Lot P) → Netted P
  | qty, [] => ⟨if qty = 0 then [] else [⟨qty, price⟩], []⟩
  | qty, lot :: rest =>
      if qty = 0 then ⟨lot :: rest, []⟩
      else if SameSide qty lot.qty then ⟨lot :: rest ++ [⟨qty, price⟩], []⟩
      else if qty.natAbs < lot.qty.natAbs then
        ⟨⟨lot.qty + qty, lot.price⟩ :: rest, [⟨-qty, lot.price, price⟩]⟩
      else
        let tail := net price (qty + lot.qty) rest
        ⟨tail.lots, ⟨lot.qty, lot.price, price⟩ :: tail.closed⟩

def netAll (lots : List (Lot P)) : List (Lot P) → Netted P
  | [] => ⟨lots, []⟩
  | trade :: trades =>
      let head := net trade.price trade.qty lots
      let tail := netAll head.lots trades
      ⟨tail.lots, head.closed ++ tail.closed⟩

def total (lots : List (Lot P)) : Int := (lots.map Lot.qty).sum

/-- The closed pieces' profit: signed quantity times price difference. -/
def profit [Ring P] (closed : List (Match P)) : P :=
  (closed.map fun m => (m.lotQty : P) * (m.closePrice - m.lotPrice)).sum

/-- The price of a book's total quantity, zero for the empty book. -/
def average [DivisionRing P] (lots : List (Lot P)) : P :=
  (lots.map fun lot => (lot.qty : P) * lot.price).sum / (total lots : P)

/-- Every lot is nonzero and on the side of `side`. -/
def OnSide (side : Int) (lots : List (Lot P)) : Prop :=
  ∀ lot ∈ lots, lot.qty ≠ 0 ∧ SameSide lot.qty side

/-- A legal book: nonzero lots, all of one side. -/
def Legal (lots : List (Lot P)) : Prop := ∃ side, OnSide side lots

/-! ## Books of one side -/

theorem sameSide_comm {a b : Int} : SameSide a b ↔ SameSide b a := eq_comm

theorem SameSide.trans {a b c : Int} (h : SameSide a b) (h' : SameSide b c) : SameSide a c :=
  Eq.trans h h'

theorem sameSide_iff {a b : Int} (ha : a ≠ 0) (hb : b ≠ 0) :
    SameSide a b ↔ (0 < a ∧ 0 < b ∨ a < 0 ∧ b < 0) := by
  unfold SameSide
  rcases lt_trichotomy a 0 with h | h | h
  · rcases lt_trichotomy b 0 with h' | h' | h'
    · simp [Int.sign_eq_neg_one_of_neg, h, h']
    · exact absurd h' hb
    · simp only [Int.sign_eq_neg_one_of_neg h, Int.sign_eq_one_of_pos h']
      omega
  · exact absurd h ha
  · rcases lt_trichotomy b 0 with h' | h' | h'
    · simp only [Int.sign_eq_neg_one_of_neg h', Int.sign_eq_one_of_pos h]
      omega
    · exact absurd h' hb
    · simp [Int.sign_eq_one_of_pos, h, h']

theorem onSide_nil (side : Int) : OnSide side ([] : List (Lot P)) := by
  intro lot member
  simp at member

theorem onSide_cons {side : Int} {lot : Lot P} {rest : List (Lot P)} :
    OnSide side (lot :: rest) ↔ (lot.qty ≠ 0 ∧ SameSide lot.qty side) ∧ OnSide side rest := by
  simp [OnSide]

theorem onSide_append {side : Int} {left right : List (Lot P)} :
    OnSide side (left ++ right) ↔ OnSide side left ∧ OnSide side right := by
  simp only [OnSide, List.mem_append]
  constructor
  · intro h
    exact ⟨fun lot member => h lot (Or.inl member), fun lot member => h lot (Or.inr member)⟩
  · rintro ⟨hl, hr⟩ lot (member | member)
    · exact hl lot member
    · exact hr lot member

theorem legal_nil : Legal ([] : List (Lot P)) := ⟨0, onSide_nil 0⟩

theorem legal_of_cons {lot : Lot P} {rest : List (Lot P)} (h : Legal (lot :: rest)) : Legal rest := by
  obtain ⟨side, hs⟩ := h
  exact ⟨side, (onSide_cons.mp hs).2⟩

theorem total_nil : total ([] : List (Lot P)) = 0 := rfl

@[simp] theorem total_cons (lot : Lot P) (rest : List (Lot P)) :
    total (lot :: rest) = lot.qty + total rest := by
  simp [total]

@[simp] theorem total_append (left right : List (Lot P)) :
    total (left ++ right) = total left + total right := by
  simp [total]

/-- In a legal book the quantities cannot cancel. -/
theorem total_eq_zero_iff {lots : List (Lot P)} (h : Legal lots) : total lots = 0 ↔ lots = [] := by
  obtain ⟨side, hs⟩ := h
  constructor
  · intro hz
    cases lots with
    | nil => rfl
    | cons lot rest =>
        have bounds : ∀ (more : List (Lot P)), OnSide lot.qty more →
            (0 < lot.qty → 0 ≤ total more) ∧ (lot.qty < 0 → total more ≤ 0) := by
          intro more
          induction more with
          | nil => intro _; simp [total]
          | cons next more ih =>
              intro side
              obtain ⟨⟨nonzero, same⟩, restSide⟩ := onSide_cons.mp side
              have := ih restSide
              have nonzeroLot := ((onSide_cons.mp hs).1).1
              rw [sameSide_iff nonzero nonzeroLot] at same
              simp only [total_cons]
              omega
        obtain ⟨⟨nonzero, same⟩, restSide⟩ := onSide_cons.mp hs
        have aligned : OnSide lot.qty rest := fun next member =>
          ⟨(restSide next member).1, (restSide next member).2.trans (sameSide_comm.mp same)⟩
        have := bounds rest aligned
        simp only [total_cons] at hz
        omega
  · intro empty
    rw [empty, total_nil]

/-! ## One trade -/

theorem net_zero (price : P) (lots : List (Lot P)) : net price 0 lots = ⟨lots, []⟩ := by
  cases lots <;> simp [net]

theorem net_nil (price : P) {qty : Int} (h : qty ≠ 0) : net price qty [] = ⟨[⟨qty, price⟩], []⟩ := by
  simp [net, h]

theorem net_sameSide (price : P) {qty : Int} {lot : Lot P} (rest : List (Lot P)) (h : qty ≠ 0)
    (same : SameSide qty lot.qty) :
    net price qty (lot :: rest) = ⟨lot :: rest ++ [⟨qty, price⟩], []⟩ := by
  simp [net, h, same]

theorem net_part (price : P) {qty : Int} {lot : Lot P} (rest : List (Lot P)) (h : qty ≠ 0)
    (opposite : ¬ SameSide qty lot.qty) (smaller : qty.natAbs < lot.qty.natAbs) :
    net price qty (lot :: rest) =
      ⟨⟨lot.qty + qty, lot.price⟩ :: rest, [⟨-qty, lot.price, price⟩]⟩ := by
  simp [net, h, opposite, smaller]

theorem net_full (price : P) {qty : Int} {lot : Lot P} (rest : List (Lot P)) (h : qty ≠ 0)
    (opposite : ¬ SameSide qty lot.qty) (covers : lot.qty.natAbs ≤ qty.natAbs) :
    net price qty (lot :: rest) =
      ⟨(net price (qty + lot.qty) rest).lots,
        ⟨lot.qty, lot.price, price⟩ :: (net price (qty + lot.qty) rest).closed⟩ := by
  simp [net, h, opposite, Nat.not_lt.mpr covers]

theorem net_total (price : P) (qty : Int) (lots : List (Lot P)) :
    total (net price qty lots).lots = total lots + qty := by
  induction lots generalizing qty with
  | nil =>
      by_cases zero : qty = 0
      · simp [net, zero, total]
      · simp [net, zero, total]
  | cons lot rest ih =>
      by_cases zero : qty = 0
      · subst zero
        simp [net_zero]
      · by_cases same : SameSide qty lot.qty
        · rw [net_sameSide price rest zero same]
          simp [total_nil]
          ring
        · by_cases smaller : qty.natAbs < lot.qty.natAbs
          · rw [net_part price rest zero same smaller]
            simp only [total_cons]
            ring
          · rw [net_full price rest zero same (Nat.not_lt.mp smaller)]
            simp only [ih, total_cons]
            ring

theorem onSide_of_sameSide {a b : Int} {lots : List (Lot P)} (h : SameSide a b)
    (hs : OnSide a lots) : OnSide b lots := fun lot member =>
  ⟨(hs lot member).1, (hs lot member).2.trans h⟩

theorem net_legal (price : P) (qty : Int) (lots : List (Lot P)) (h : Legal lots) :
    Legal (net price qty lots).lots := by
  induction lots generalizing qty with
  | nil =>
      by_cases zero : qty = 0
      · simpa [net, zero] using h
      · rw [net_nil price zero]
        exact ⟨qty, onSide_cons.mpr ⟨⟨zero, rfl⟩, onSide_nil qty⟩⟩
  | cons lot rest ih =>
      by_cases zero : qty = 0
      · subst zero
        rw [net_zero]
        exact h
      · obtain ⟨side, hs⟩ := h
        obtain ⟨⟨nonzero, onSide⟩, restSide⟩ := onSide_cons.mp hs
        by_cases same : SameSide qty lot.qty
        · rw [net_sameSide price rest zero same]
          refine ⟨side, onSide_append.mpr ⟨hs, onSide_cons.mpr ⟨⟨zero, ?_⟩, onSide_nil side⟩⟩⟩
          exact same.trans onSide
        · by_cases smaller : qty.natAbs < lot.qty.natAbs
          · rw [net_part price rest zero same smaller]
            have remains : lot.qty + qty ≠ 0 := by omega
            refine ⟨side, onSide_cons.mpr ⟨⟨remains, SameSide.trans ?_ onSide⟩, restSide⟩⟩
            rw [sameSide_iff remains nonzero]
            omega
          · rw [net_full price rest zero same (Nat.not_lt.mp smaller)]
            exact ih (qty + lot.qty) ⟨side, restSide⟩

/-! ## Trade lists -/

@[simp] theorem netAll_nil (lots : List (Lot P)) : netAll lots [] = ⟨lots, []⟩ := rfl

theorem netAll_cons (lots : List (Lot P)) (trade : Lot P) (trades : List (Lot P)) :
    netAll lots (trade :: trades) =
      ⟨(netAll (net trade.price trade.qty lots).lots trades).lots,
        (net trade.price trade.qty lots).closed ++
          (netAll (net trade.price trade.qty lots).lots trades).closed⟩ := rfl

/-- Zero quantities are no trades. -/
theorem netAll_skip_zero (lots trades : List (Lot P)) (price : P) :
    netAll lots (⟨0, price⟩ :: trades) = netAll lots trades := by
  rw [netAll_cons, net_zero]
  rfl

theorem netAll_filter (lots trades : List (Lot P)) :
    netAll lots (trades.filter fun trade => trade.qty ≠ 0) = netAll lots trades := by
  induction trades generalizing lots with
  | nil => rfl
  | cons trade trades ih =>
      by_cases zero : trade.qty = 0
      · obtain ⟨qty, price⟩ := trade
        subst zero
        rw [List.filter_cons_of_neg (by simp), netAll_skip_zero, ih]
      · rw [List.filter_cons_of_pos (by simpa using zero), netAll_cons, netAll_cons, ih]

theorem netAll_append (lots left right : List (Lot P)) :
    netAll lots (left ++ right) =
      ⟨(netAll (netAll lots left).lots right).lots,
        (netAll lots left).closed ++ (netAll (netAll lots left).lots right).closed⟩ := by
  induction left generalizing lots with
  | nil => rfl
  | cons trade left ih =>
      rw [List.cons_append, netAll_cons, ih, netAll_cons]
      simp only [List.append_assoc]

theorem netAll_total (lots trades : List (Lot P)) :
    total (netAll lots trades).lots = total lots + total trades := by
  induction trades generalizing lots with
  | nil => simp [total_nil]
  | cons trade trades ih =>
      rw [netAll_cons]
      simp only [ih, net_total, total_cons]
      ring

theorem netAll_legal (lots trades : List (Lot P)) (h : Legal lots) :
    Legal (netAll lots trades).lots := by
  induction trades generalizing lots with
  | nil => exact h
  | cons trade trades ih =>
      rw [netAll_cons]
      exact ih _ (net_legal trade.price trade.qty lots h)

/-! ## Turnover

Closing a piece of a lot takes its quantity from the lot and from the trade. -/

def turnover (lots : List (Lot P)) : Int := (lots.map fun lot => |lot.qty|).sum

def closedTurnover (closed : List (Match P)) : Int := (closed.map fun m => |m.lotQty|).sum

@[simp] theorem turnover_nil : turnover ([] : List (Lot P)) = 0 := rfl

@[simp] theorem turnover_cons (lot : Lot P) (rest : List (Lot P)) :
    turnover (lot :: rest) = |lot.qty| + turnover rest := by
  simp [turnover]

@[simp] theorem turnover_append (left right : List (Lot P)) :
    turnover (left ++ right) = turnover left + turnover right := by
  simp [turnover]

@[simp] theorem closedTurnover_nil : closedTurnover ([] : List (Match P)) = 0 := rfl

@[simp] theorem closedTurnover_cons (m : Match P) (closed : List (Match P)) :
    closedTurnover (m :: closed) = |m.lotQty| + closedTurnover closed := by
  simp [closedTurnover]

@[simp] theorem closedTurnover_append (left right : List (Match P)) :
    closedTurnover (left ++ right) = closedTurnover left + closedTurnover right := by
  simp [closedTurnover]

theorem net_turnover (price : P) (qty : Int) (lots : List (Lot P)) (legal : Legal lots) :
    turnover (net price qty lots).lots + 2 * closedTurnover (net price qty lots).closed =
      turnover lots + |qty| := by
  induction lots generalizing qty with
  | nil =>
      by_cases zero : qty = 0
      · simp [net, zero]
      · simp [net_nil price zero]
  | cons lot rest ih =>
      by_cases zero : qty = 0
      · simp [zero, net_zero]
      · obtain ⟨side, onSide⟩ := legal
        obtain ⟨⟨nonzero, _⟩, restSide⟩ := onSide_cons.mp onSide
        by_cases same : SameSide qty lot.qty
        · simp [net_sameSide price rest zero same, add_assoc]
        · have sides := same
          rw [sameSide_iff zero nonzero] at sides
          by_cases smaller : qty.natAbs < lot.qty.natAbs
          · rw [net_part price rest zero same smaller]
            simp only [turnover_cons, closedTurnover_cons, closedTurnover_nil, Int.abs_eq_natAbs]
            omega
          · rw [net_full price rest zero same (Nat.not_lt.mp smaller)]
            have := ih (qty + lot.qty) ⟨side, restSide⟩
            simp only [turnover_cons, closedTurnover_cons, Int.abs_eq_natAbs] at this ⊢
            omega

theorem netAll_turnover (lots trades : List (Lot P)) (legal : Legal lots) :
    turnover (netAll lots trades).lots + 2 * closedTurnover (netAll lots trades).closed =
      turnover lots + turnover trades := by
  induction trades generalizing lots with
  | nil => simp
  | cons trade trades ih =>
      have head := net_turnover trade.price trade.qty lots legal
      have tail := ih _ (net_legal trade.price trade.qty lots legal)
      rw [netAll_cons]
      simp only [closedTurnover_append, turnover_cons]
      omega

section Profit

variable [Ring P]

@[simp] theorem profit_nil : profit ([] : List (Match P)) = 0 := rfl

@[simp] theorem profit_cons (m : Match P) (closed : List (Match P)) :
    profit (m :: closed) = (m.lotQty : P) * (m.closePrice - m.lotPrice) + profit closed := by
  simp [profit]

@[simp] theorem profit_append (left right : List (Match P)) :
    profit (left ++ right) = profit left + profit right := by
  simp [profit]

end Profit

end FifoNetting
