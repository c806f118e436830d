import Gambit.Lib.FifoNetting

/-!
# Where short lots end, read off the order flow

First-in first-out netting pairs the n-th unit sold with the n-th unit bought.
So the lots of a short book end exactly at the sold totals that the bought
total has not reached, and a purchase closes whole lots and nothing else
exactly when it takes the bought total to one of them.
-/

set_option autoImplicit false

namespace FifoNetting

variable {P : Type}

def bought (flow : List (Lot P)) : Int := (flow.map fun trade => max trade.qty 0).sum

def sold (flow : List (Lot P)) : Int := (flow.map fun trade => max (-trade.qty) 0).sum

@[simp] theorem bought_nil : bought ([] : List (Lot P)) = 0 := rfl

@[simp] theorem sold_nil : sold ([] : List (Lot P)) = 0 := rfl

@[simp] theorem bought_cons (trade : Lot P) (flow : List (Lot P)) :
    bought (trade :: flow) = max trade.qty 0 + bought flow := by
  simp [bought]

@[simp] theorem sold_cons (trade : Lot P) (flow : List (Lot P)) :
    sold (trade :: flow) = max (-trade.qty) 0 + sold flow := by
  simp [sold]

@[simp] theorem bought_append (left right : List (Lot P)) :
    bought (left ++ right) = bought left + bought right := by
  simp [bought]

@[simp] theorem sold_append (left right : List (Lot P)) :
    sold (left ++ right) = sold left + sold right := by
  simp [sold]

theorem bought_sub_sold (flow : List (Lot P)) : bought flow - sold flow = total flow := by
  induction flow with
  | nil => simp [total]
  | cons trade flow ih =>
      simp only [bought_cons, sold_cons, total_cons, ← ih]
      omega

/-- Some oldest lots of the book amount to a short position of `size`. -/
def EndsAt (lots : List (Lot P)) (size : Int) : Prop := ∃ n ≤ lots.length, total (lots.take n) = -size

/-- The flow's sold total stood at `level` after one of its trades. -/
def SoldTo (flow : List (Lot P)) (level : Int) : Prop := ∃ early, early <+: flow ∧ sold early = level

instance (flow : List (Lot P)) (level : Int) : Decidable (SoldTo flow level) :=
  decidable_of_iff (∃ early ∈ flow.inits, sold early = level) (by simp [SoldTo])

theorem soldTo_append {flow : List (Lot P)} {trade : Lot P} {level : Int} :
    SoldTo (flow ++ [trade]) level ↔ SoldTo flow level ∨ sold (flow ++ [trade]) = level := by
  constructor
  · rintro ⟨early, before, at_level⟩
    rcases List.prefix_concat_iff.mp before with rfl | within
    · exact Or.inr at_level
    · exact Or.inl ⟨early, within, at_level⟩
  · rintro (⟨early, before, at_level⟩ | whole)
    · exact ⟨early, before.trans (List.prefix_append ..), at_level⟩
    · exact ⟨_, List.prefix_rfl, whole⟩

theorem endsAt_nil {size : Int} (positive : 0 < size) : ¬ EndsAt ([] : List (Lot P)) size := by
  rintro ⟨n, _, ends⟩
  simp [total_nil] at ends
  omega

theorem endsAt_cons {lot : Lot P} {rest : List (Lot P)} {size : Int} (positive : 0 < size) :
    EndsAt (lot :: rest) size ↔ EndsAt rest (size + lot.qty) := by
  constructor
  · rintro ⟨n, within, ends⟩
    cases n with
    | zero =>
        simp [total_nil] at ends
        omega
    | succ n =>
        rw [List.take_succ_cons, total_cons] at ends
        exact ⟨n, by simpa using within, by omega⟩
  · rintro ⟨n, within, ends⟩
    refine ⟨n + 1, by simpa using within, ?_⟩
    rw [List.take_succ_cons, total_cons, ends]
    omega

theorem endsAt_append {lots : List (Lot P)} {lot : Lot P} {size : Int} :
    EndsAt (lots ++ [lot]) size ↔ EndsAt lots size ∨ total (lots ++ [lot]) = -size := by
  constructor
  · rintro ⟨n, within, ends⟩
    rw [List.length_append, List.length_singleton] at within
    rcases Nat.lt_or_ge lots.length n with beyond | inside
    · rw [List.take_of_length_le (by simp; omega)] at ends
      exact Or.inr ends
    · rw [List.take_append_of_le_length inside] at ends
      exact Or.inl ⟨n, inside, ends⟩
  · rintro (⟨n, within, ends⟩ | whole)
    · refine ⟨n, by simp; omega, ?_⟩
      rwa [List.take_append_of_le_length within]
    · exact ⟨(lots ++ [lot]).length, le_rfl, by rwa [List.take_length]⟩

/-- A book on the long side has no short total in it. -/
theorem not_endsAt_of_long {lots : List (Lot P)} {side size : Int} (long : 0 < side)
    (onSide : OnSide side lots) (positive : 0 < size) : ¬ EndsAt lots size := by
  induction lots generalizing size with
  | nil => exact endsAt_nil positive
  | cons lot rest ih =>
      obtain ⟨⟨nonzero, same⟩, restSide⟩ := onSide_cons.mp onSide
      rw [sameSide_iff nonzero (by omega)] at same
      rw [endsAt_cons positive]
      exact ih restSide (by omega)

theorem total_nonpos_of_short {lots : List (Lot P)} {side : Int} (short : side < 0)
    (onSide : OnSide side lots) : total lots ≤ 0 := by
  induction lots with
  | nil => simp [total_nil]
  | cons lot rest ih =>
      obtain ⟨⟨nonzero, same⟩, restSide⟩ := onSide_cons.mp onSide
      rw [sameSide_iff nonzero (by omega)] at same
      have := ih restSide
      simp only [total_cons]
      omega

theorem total_nonneg_of_long {lots : List (Lot P)} {side : Int} (long : 0 < side)
    (onSide : OnSide side lots) : 0 ≤ total lots := by
  induction lots with
  | nil => simp [total_nil]
  | cons lot rest ih =>
      obtain ⟨⟨nonzero, same⟩, restSide⟩ := onSide_cons.mp onSide
      rw [sameSide_iff nonzero (by omega)] at same
      have := ih restSide
      simp only [total_cons]
      omega

theorem not_endsAt_of_short {lots : List (Lot P)} {side size : Int} (short : side < 0)
    (onSide : OnSide side lots) (negative : size < 0) : ¬ EndsAt lots size := by
  rintro ⟨n, _, ends⟩
  have firstSide : OnSide side (lots.take n) := fun lot member =>
    onSide lot (List.mem_of_mem_take member)
  have := total_nonpos_of_short short firstSide
  omega

/-- A purchase shifts the ends of the short lots by its quantity. -/
theorem net_endsAt_buy (price : P) {qty : Int} {lots : List (Lot P)} (legal : Legal lots)
    (buys : 0 < qty) {size : Int} (positive : 0 < size) :
    EndsAt (net price qty lots).lots size ↔ EndsAt lots (size + qty) := by
  induction lots generalizing qty with
  | nil =>
      rw [net_nil price (by omega), endsAt_cons positive]
  | cons lot rest ih =>
      obtain ⟨side, onSide⟩ := legal
      obtain ⟨⟨nonzero, same⟩, restSide⟩ := onSide_cons.mp onSide
      have restLegal : Legal rest := ⟨side, restSide⟩
      by_cases agree : SameSide qty lot.qty
      · rw [net_sameSide price rest (by omega) agree]
        have long : 0 < lot.qty := by
          rw [sameSide_iff (by omega) nonzero] at agree
          omega
        have aligned : OnSide lot.qty (lot :: rest) := fun next member =>
          ⟨(onSide next member).1, (onSide next member).2.trans (sameSide_comm.mp same)⟩
        have grown : OnSide lot.qty (lot :: rest ++ [⟨qty, price⟩]) :=
          onSide_append.mpr ⟨aligned, onSide_cons.mpr ⟨⟨by simp; omega, agree⟩, onSide_nil _⟩⟩
        exact iff_of_false (not_endsAt_of_long long grown positive)
          (not_endsAt_of_long long aligned (by omega))
      · have short : lot.qty < 0 := by
          rw [sameSide_iff (by omega) nonzero] at agree
          omega
        by_cases smaller : qty.natAbs < lot.qty.natAbs
        · rw [net_part price rest (by omega) agree smaller, endsAt_cons positive,
            endsAt_cons (by omega)]
          exact iff_of_eq (congrArg _ (by ring))
        · rw [net_full price rest (by omega) agree (Nat.not_lt.mp smaller),
            endsAt_cons (by omega : 0 < size + qty)]
          rcases lt_or_eq_of_le (by omega : 0 ≤ qty + lot.qty) with left | used
          · rw [ih restLegal left]
            exact iff_of_eq (congrArg _ (by ring))
          · rw [← used, net_zero]
            exact iff_of_eq (congrArg _ (by omega))

/-- A sale adds the end of the lot it opens, if it opens a short one. -/
theorem net_endsAt_sell (price : P) {qty : Int} {lots : List (Lot P)} (legal : Legal lots)
    (sells : qty < 0) {size : Int} (positive : 0 < size) :
    EndsAt (net price qty lots).lots size ↔ EndsAt lots size ∨ total lots + qty = -size := by
  induction lots generalizing qty with
  | nil =>
      rw [net_nil price (by omega), endsAt_cons positive]
      have empty := endsAt_nil (P := P) positive
      simp only [EndsAt, List.take_nil, total_nil, List.length_nil] at empty ⊢
      constructor
      · rintro ⟨n, _, ends⟩
        exact Or.inr (by omega)
      · rintro (ends | ends)
        · exact absurd ends empty
        · exact ⟨0, le_rfl, by omega⟩
  | cons lot rest ih =>
      obtain ⟨side, onSide⟩ := legal
      obtain ⟨⟨nonzero, same⟩, restSide⟩ := onSide_cons.mp onSide
      have restLegal : Legal rest := ⟨side, restSide⟩
      by_cases agree : SameSide qty lot.qty
      · rw [net_sameSide price rest (by omega) agree, endsAt_append, total_append]
        simp [total_nil]
      · have long : 0 < lot.qty := by
          rw [sameSide_iff (by omega) nonzero] at agree
          omega
        have aligned : OnSide lot.qty (lot :: rest) := fun next member =>
          ⟨(onSide next member).1, (onSide next member).2.trans (sameSide_comm.mp same)⟩
        have restLong : OnSide lot.qty rest := (onSide_cons.mp aligned).2
        have noneBefore := not_endsAt_of_long long aligned positive
        by_cases smaller : qty.natAbs < lot.qty.natAbs
        · have remains : lot.qty + qty ≠ 0 := by omega
          have shrunk : OnSide lot.qty (⟨lot.qty + qty, lot.price⟩ :: rest) :=
            onSide_cons.mpr ⟨⟨remains, (sameSide_iff remains nonzero).mpr (by omega)⟩, restLong⟩
          have noneAfter := not_endsAt_of_long long shrunk positive
          have netTotal := net_total price qty (lot :: rest)
          rw [net_part price rest (by omega) agree smaller] at netTotal ⊢
          refine iff_of_false noneAfter ?_
          rintro (ends | ends)
          · exact noneBefore ends
          · exact noneAfter ⟨_, le_rfl, by rw [List.take_length]; exact netTotal.trans ends⟩
        · rw [net_full price rest (by omega) agree (Nat.not_lt.mp smaller)]
          rcases lt_or_eq_of_le (by omega : qty + lot.qty ≤ 0) with left | used
          · rw [ih restLegal left]
            have noneRest := not_endsAt_of_long long restLong positive
            simp only [total_cons, noneBefore, noneRest, false_or]
            exact iff_of_eq (congrArg (· = -size) (by ring))
          · rw [used, net_zero]
            have noneRest := not_endsAt_of_long long restLong positive
            refine iff_of_false noneRest ?_
            rintro (ends | ends)
            · exact noneBefore ends
            · refine noneRest ⟨_, le_rfl, ?_⟩
              rw [List.take_length]
              simp only [total_cons] at ends
              omega

/-- In a book and in the flow that built it the short lots end alike. -/
structure Ledger (flow lots : List (Lot P)) : Prop where
  legal : Legal lots
  totals : total lots = total flow
  ends : ∀ size, 0 < size → (EndsAt lots size ↔ SoldTo flow (bought flow + size))

theorem Ledger.nil : Ledger ([] : List (Lot P)) [] where
  legal := legal_nil
  totals := rfl
  ends := by
    intro size positive
    refine iff_of_false (endsAt_nil positive) ?_
    rintro ⟨early, before, at_level⟩
    rw [List.prefix_nil.mp before] at at_level
    simp at at_level
    omega

theorem Ledger.step {flow lots : List (Lot P)} (ledger : Ledger flow lots) (trade : Lot P)
    (nonzero : trade.qty ≠ 0) :
    Ledger (flow ++ [trade]) (net trade.price trade.qty lots).lots where
  legal := net_legal trade.price trade.qty lots ledger.legal
  totals := by simp [net_total, ledger.totals, total_nil]
  ends := by
    intro size positive
    have balance := bought_sub_sold flow
    have reached : SoldTo flow (sold flow) := ⟨flow, List.prefix_rfl, rfl⟩
    rw [soldTo_append]
    simp only [sold_append, bought_append, sold_cons, bought_cons, sold_nil, bought_nil, add_zero]
    rcases lt_or_gt_of_ne nonzero with sells | buys
    · rw [net_endsAt_sell trade.price ledger.legal sells positive, ledger.ends size positive,
        max_eq_right (by omega : trade.qty ≤ 0), max_eq_left (by omega : 0 ≤ -trade.qty), add_zero]
      refine or_congr Iff.rfl ?_
      rw [ledger.totals]
      constructor
      · intro ends
        omega
      · intro ends
        omega
    · rw [net_endsAt_buy trade.price ledger.legal buys positive, ledger.ends _ (by omega),
        max_eq_left (by omega : 0 ≤ trade.qty), max_eq_right (by omega : -trade.qty ≤ 0), add_zero,
        show bought flow + (size + trade.qty) = bought flow + trade.qty + size by ring]
      constructor
      · exact Or.inl
      · rintro (ends | ends)
        · exact ends
        · exact ends ▸ reached

theorem Ledger.netAll {flow lots : List (Lot P)} (ledger : Ledger flow lots)
    (trades : List (Lot P)) (nonzero : ∀ trade ∈ trades, trade.qty ≠ 0) :
    Ledger (flow ++ trades) (netAll lots trades).lots := by
  induction trades generalizing flow lots with
  | nil => simpa using ledger
  | cons trade trades ih =>
      have stepped := ledger.step trade (nonzero trade (List.mem_cons_self ..))
      have rest := ih stepped fun next member => nonzero next (List.mem_cons_of_mem _ member)
      simpa [netAll_cons] using rest

/-- Netting the lots of a legal book one after the other gives the book back. -/
theorem netAll_self {lots : List (Lot P)} (legal : Legal lots) :
    (FifoNetting.netAll [] lots).lots = lots := by
  obtain ⟨side, onSide⟩ := legal
  induction lots using List.reverseRecOn with
  | nil => rfl
  | append_singleton lots lot ih =>
      obtain ⟨onSide, lastSide⟩ := onSide_append.mp onSide
      obtain ⟨⟨nonzero, same⟩, _⟩ := onSide_cons.mp lastSide
      rw [netAll_append, ih onSide]
      simp only [netAll_cons, netAll_nil]
      cases lots with
      | nil => rw [net_nil lot.price nonzero]; rfl
      | cons first rest =>
          have firstSide := ((onSide_cons.mp onSide).1).2
          rw [net_sameSide lot.price rest nonzero (same.trans (sameSide_comm.mp firstSide))]

theorem Ledger.of_legal {lots : List (Lot P)} (legal : Legal lots) : Ledger lots lots := by
  have nonzero : ∀ lot ∈ lots, lot.qty ≠ 0 := fun lot member => (legal.choose_spec lot member).1
  have built := Ledger.nil.netAll lots nonzero
  rwa [netAll_self legal, List.nil_append] at built

end FifoNetting
