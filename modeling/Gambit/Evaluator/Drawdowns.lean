import Gambit.Lib.Raising
import Gambit.Python

/-!
# Maximum drawdown

The metrics `equity`, `rolling_dd` and `mdd_pct` of `compute_return_metrics`, over
exact arithmetic.
-/

set_option autoImplicit false

namespace Gambit.Evaluator

open Raising

section Code

variable {τ α : Type} [Field α] [LinearOrder α]

/-- `np.cumprod` -/
def cumprod (factors : List α) : List α := (factors.scanl (· * ·) 1).tail

/-- `np.maximum.accumulate` -/
def maximumAccumulate : List α → List α
  | [] => []
  | first :: rest => rest.scanl max first

def computeEquity (startingEquity : α) (returns : List α) : List α :=
  (cumprod (returns.map (1 + ·))).map (startingEquity * ·)

/-- An entry divided by zero is not finite. -/
def computeRollingDd (timestamps : List τ) (equity : List α) :
    Except Exn (List τ × List (Option α)) :=
  if timestamps.length ≠ equity.length then .error .assertionError
  else if timestamps = [] then .ok ([], [])
  else
    let rollingMax := maximumAccumulate equity
    .ok (timestamps, List.zipWith (fun equity rollingMax =>
      if rollingMax ≤ equity then some 0
      else if rollingMax = 0 then none
      else some (-(equity - rollingMax) / rollingMax)) equity rollingMax)

/-- NaN where there is no finite drawdown. -/
def computeMaxddPct (rollingDd : List (Option α)) : Option α :=
  let finiteDrawdowns := rollingDd.filterMap id
  finiteDrawdowns.max?

/-- The metric `mdd_pct`. -/
def mddPct (timestamps : List τ) (startingEquity : α) (returns : List α) : Except Exn (Option α) := do
  let equity := computeEquity startingEquity returns
  let rollingDd ← computeRollingDd timestamps equity
  .ok (computeMaxddPct rollingDd.2)

/-! ## The equity path -/

/-- The starting equity, then the equity after each return. -/
def equityPath (startingEquity : α) (returns : List α) : List α :=
  returns.scanl (fun equity ret => equity * (1 + ret)) startingEquity

/-- The falls from one equity of a path to a later one. -/
def drawdowns (path : List α) : Set α :=
  {drawdown | ∃ (i j : Nat) (earlier later : α), i ≤ j ∧ path[i]? = some earlier ∧ path[j]? = some later ∧
    drawdown = 1 - later / earlier}

/-- What the returns after the first `i`, up to the first `j`, compound to. -/
def growth (returns : List α) (i j : Nat) : α := (((returns.take j).drop i).map (1 + ·)).prod

/-- No loss from the start is deeper than every loss after the first return. -/
def InitialLossMatched (returns : List α) : Prop :=
  ∀ k, 1 ≤ k → k ≤ returns.length → ∃ i j, 1 ≤ i ∧ i ≤ j ∧ j ≤ returns.length ∧
    growth returns i j ≤ growth returns 0 k

end Code

/-! ## Products of returns -/

section Growth

variable {α : Type} [Field α] {startingEquity : α} {returns : List α}

theorem growth_self (i : Nat) : growth returns i i = 1 := by
  rw [growth, List.drop_eq_nil_of_le (List.length_take_le i returns), List.map_nil, List.prod_nil]

theorem growth_mul {i j : Nat} (before : i ≤ j) :
    growth returns 0 i * growth returns i j = growth returns 0 j := by
  have split : returns.take i = (returns.take j).take i := by
    rw [List.take_take, Nat.min_eq_left before]
  unfold growth
  rw [List.drop_zero, List.drop_zero, ← List.prod_append, ← List.map_append, split,
    List.take_append_drop]

theorem foldl_growth (steps : List α) :
    steps.foldl (fun equity ret => equity * (1 + ret)) startingEquity =
      startingEquity * (steps.map (1 + ·)).prod := by
  induction steps generalizing startingEquity with
  | nil => simp
  | cons ret rest ih => rw [List.foldl_cons, ih, List.map_cons, List.prod_cons, mul_assoc]

theorem equityPath_getElem? (k : Nat) : (equityPath startingEquity returns)[k]? =
    if k ≤ returns.length then some (startingEquity * growth returns 0 k) else none := by
  rw [equityPath, List.getElem?_scanl]
  split
  · rw [foldl_growth, growth, List.drop_zero]
  · rfl

theorem equityPath_at (startingEquity : α) {k : Nat} (inside : k ≤ returns.length) :
    (equityPath startingEquity returns)[k]? = some (startingEquity * growth returns 0 k) := by
  rw [equityPath_getElem?, if_pos inside]

/-- The equities are those of the path, without the first. -/
theorem computeEquity_getElem? (k : Nat) : (computeEquity startingEquity returns)[k]? =
    (equityPath startingEquity returns)[k + 1]? := by
  rw [equityPath_getElem?, computeEquity, List.getElem?_map, cumprod, List.getElem?_tail,
    List.getElem?_scanl, List.length_map]
  split
  · rw [← List.prod_eq_foldl, growth, List.drop_zero, List.map_take]
    rfl
  · rfl

end Growth

/-! ## The running maximum -/

section Rolling

variable {τ α : Type} [LinearOrder α] {equity : List α}

theorem maximumAccumulate_getElem? {j : Nat} (inside : j < equity.length) :
    (maximumAccumulate equity)[j]? = (equity.take (j + 1)).max? := by
  cases equity with
  | nil => simp at inside
  | cons first rest =>
      rw [maximumAccumulate, List.getElem?_scanl, if_pos (Nat.le_of_lt_succ inside),
        List.take_succ_cons, List.max?_cons']

omit [LinearOrder α] in
theorem mem_take_iff {path : List α} {j : Nat} {equity : α} :
    equity ∈ path.take (j + 1) ↔ ∃ i ≤ j, path[i]? = some equity := by
  rw [List.mem_iff_getElem?]
  constructor
  · rintro ⟨i, found⟩
    rw [List.getElem?_take] at found
    split at found
    · exact ⟨i, by omega, found⟩
    · cases found
  · rintro ⟨i, inside, found⟩
    exact ⟨i, by rw [List.getElem?_take_of_lt (by omega), found]⟩

variable [Field α]

/-- A rolling drawdown is the fall from the largest equity so far. -/
theorem computeRollingDd_ok (timestamps : List τ) (sameLength : timestamps.length = equity.length)
    (nonempty : equity ≠ []) (positive : ∀ value ∈ equity, 0 < value) :
    ∃ dd, computeRollingDd timestamps equity = .ok (timestamps, dd) ∧
      (∀ j, equity.length ≤ j → dd[j]? = none) ∧
      ∀ j later, equity[j]? = some later → ∃ peak, (equity.take (j + 1)).max? = some peak ∧
        dd[j]? = some (some (1 - later / peak)) := by
  have timed : timestamps ≠ [] := by
    rintro rfl
    exact nonempty (List.length_eq_zero_iff.mp sameLength.symm)
  refine ⟨_, by rw [computeRollingDd, if_neg (not_not.mpr sameLength), if_neg timed], ?_, ?_⟩
  · intro j outside
    rw [List.getElem?_zipWith, List.getElem?_eq_none outside]
  · intro j later found
    have inside := (List.getElem?_eq_some_iff.mp found).1
    have reached : later ∈ equity.take (j + 1) := mem_take_iff.mpr ⟨j, le_rfl, found⟩
    obtain ⟨peak, isPeak⟩ := Option.ne_none_iff_exists'.mp
      (mt List.max?_eq_none_iff.mp (List.ne_nil_of_mem reached))
    obtain ⟨member, largest⟩ := List.max?_eq_some_iff.mp isPeak
    have peakPositive := positive peak (List.mem_of_mem_take member)
    have below := largest later reached
    refine ⟨peak, isPeak, ?_⟩
    rw [List.getElem?_zipWith, found, maximumAccumulate_getElem? inside, isPeak]
    simp only
    by_cases atPeak : peak ≤ later
    · rw [if_pos atPeak, le_antisymm below atPeak, div_self peakPositive.ne', sub_self]
    · rw [if_neg atPeak, if_neg peakPositive.ne', neg_sub, sub_div, div_self peakPositive.ne']

variable [IsStrictOrderedRing α]

/-- The maximum of the rolling drawdowns is the largest fall from an equity to a later one. -/
theorem computeMaxddPct_isGreatest {dd : List (Option α)} (nonempty : equity ≠ [])
    (positive : ∀ value ∈ equity, 0 < value) (ends : ∀ j, equity.length ≤ j → dd[j]? = none)
    (falls : ∀ j later, equity[j]? = some later → ∃ peak, (equity.take (j + 1)).max? = some peak ∧
      dd[j]? = some (some (1 - later / peak))) :
    ∃ mdd, computeMaxddPct dd = some mdd ∧ IsGreatest (drawdowns equity) mdd := by
  obtain ⟨first, rest, rfl⟩ := List.exists_cons_of_ne_nil nonempty
  obtain ⟨peak, -, entry⟩ := falls 0 first rfl
  have finite : dd.filterMap id ≠ [] :=
    List.ne_nil_of_mem (List.mem_filterMap.mpr ⟨_, List.mem_of_getElem? entry, rfl⟩)
  obtain ⟨mdd, isMax⟩ := Option.ne_none_iff_exists'.mp (mt List.max?_eq_none_iff.mp finite)
  obtain ⟨member, largest⟩ := List.max?_eq_some_iff.mp isMax
  refine ⟨mdd, isMax, ?_, ?_⟩
  · obtain ⟨_, listed, rfl⟩ := List.mem_filterMap.mp member
    obtain ⟨j, entry⟩ := List.mem_iff_getElem?.mp listed
    by_cases inside : j < (first :: rest).length
    · obtain ⟨later, found⟩ : ∃ later, (first :: rest)[j]? = some later :=
        ⟨_, List.getElem?_eq_getElem inside⟩
      obtain ⟨peak, isPeak, fall⟩ := falls j later found
      obtain ⟨i, before, peakAt⟩ := mem_take_iff.mp (List.max?_eq_some_iff.mp isPeak).1
      rw [entry] at fall
      cases fall
      exact ⟨i, j, peak, later, before, peakAt, found, rfl⟩
    · rw [ends j (not_lt.mp inside)] at entry
      cases entry
  · rintro _ ⟨i, j, earlier, later, before, earlierAt, laterAt, rfl⟩
    obtain ⟨peak, isPeak, fall⟩ := falls j later laterAt
    have belowPeak : earlier ≤ peak :=
      (List.max?_eq_some_iff.mp isPeak).2 earlier (mem_take_iff.mpr ⟨i, before, earlierAt⟩)
    calc 1 - later / earlier ≤ 1 - later / peak := by
          have := positive earlier (List.mem_of_getElem? earlierAt)
          have := positive later (List.mem_of_getElem? laterAt)
          gcongr
      _ ≤ mdd := largest _ (List.mem_filterMap.mpr ⟨_, List.mem_of_getElem? fall, rfl⟩)

end Rolling

/-! ## From the starting equity -/

section Drawdown

variable {τ α : Type} [Field α] [LinearOrder α] [IsStrictOrderedRing α] {startingEquity : α}
  {returns : List α}

theorem growth_pos (aboveLoss : ∀ ret ∈ returns, -1 < ret) (i j : Nat) : 0 < growth returns i j := by
  refine List.prod_pos fun factor member => ?_
  obtain ⟨ret, inside, rfl⟩ := List.mem_map.mp member
  have above := aboveLoss ret (List.mem_of_mem_take (List.mem_of_mem_drop inside))
  linarith

theorem fall_eq {i j : Nat} {earlier later : α} (positive : 0 < startingEquity)
    (aboveLoss : ∀ ret ∈ returns, -1 < ret) (before : i ≤ j)
    (earlierAt : (equityPath startingEquity returns)[i]? = some earlier)
    (laterAt : (equityPath startingEquity returns)[j]? = some later) :
    j ≤ returns.length ∧ later / earlier = growth returns i j := by
  rw [equityPath_getElem?] at earlierAt laterAt
  split at earlierAt
  · split at laterAt
    · rename_i inside
      cases earlierAt
      cases laterAt
      have grown := growth_pos aboveLoss 0 i
      refine ⟨inside, ?_⟩
      rw [← growth_mul before, mul_div_mul_left _ _ positive.ne', mul_div_cancel_left₀ _ grown.ne']
    · cases laterAt
  · cases earlierAt

theorem mem_drawdowns_equityPath (positive : 0 < startingEquity)
    (aboveLoss : ∀ ret ∈ returns, -1 < ret) {drawdown : α} :
    drawdown ∈ drawdowns (equityPath startingEquity returns) ↔
      ∃ i j, i ≤ j ∧ j ≤ returns.length ∧ drawdown = 1 - growth returns i j := by
  constructor
  · rintro ⟨i, j, earlier, later, before, earlierAt, laterAt, rfl⟩
    obtain ⟨inside, fall⟩ := fall_eq positive aboveLoss before earlierAt laterAt
    exact ⟨i, j, before, inside, by rw [fall]⟩
  · rintro ⟨i, j, before, inside, rfl⟩
    have earlierAt := equityPath_at startingEquity (before.trans inside)
    have laterAt := equityPath_at startingEquity inside
    exact ⟨i, j, _, _, before, earlierAt, laterAt,
      by rw [(fall_eq positive aboveLoss before earlierAt laterAt).2]⟩

theorem mem_drawdowns_computeEquity (positive : 0 < startingEquity)
    (aboveLoss : ∀ ret ∈ returns, -1 < ret) {drawdown : α} :
    drawdown ∈ drawdowns (computeEquity startingEquity returns) ↔
      ∃ i j, 1 ≤ i ∧ i ≤ j ∧ j ≤ returns.length ∧ drawdown = 1 - growth returns i j := by
  constructor
  · rintro ⟨i, j, earlier, later, before, earlierAt, laterAt, rfl⟩
    rw [computeEquity_getElem?] at earlierAt laterAt
    obtain ⟨inside, fall⟩ := fall_eq positive aboveLoss (Nat.succ_le_succ before) earlierAt laterAt
    exact ⟨i + 1, j + 1, Nat.le_add_left 1 i, Nat.succ_le_succ before, inside, by rw [fall]⟩
  · rintro ⟨i, j, afterStart, before, inside, rfl⟩
    obtain ⟨i, rfl⟩ := Nat.exists_eq_add_of_le' afterStart
    obtain ⟨j, rfl⟩ := Nat.exists_eq_add_of_le' (afterStart.trans before)
    have earlierAt := equityPath_at startingEquity (before.trans inside)
    have laterAt := equityPath_at startingEquity inside
    exact ⟨i, j, _, _, Nat.le_of_succ_le_succ before, (computeEquity_getElem? i).trans earlierAt,
      (computeEquity_getElem? j).trans laterAt,
      by rw [(fall_eq positive aboveLoss before earlierAt laterAt).2]⟩

theorem computeEquity_pos (positive : 0 < startingEquity) (aboveLoss : ∀ ret ∈ returns, -1 < ret) :
    ∀ value ∈ computeEquity startingEquity returns, 0 < value := by
  intro value member
  obtain ⟨k, found⟩ := List.mem_iff_getElem?.mp member
  rw [computeEquity_getElem?, equityPath_getElem?] at found
  split at found
  · cases found
    exact mul_pos positive (growth_pos aboveLoss 0 (k + 1))
  · cases found

omit [LinearOrder α] [IsStrictOrderedRing α] in
theorem length_computeEquity : (computeEquity startingEquity returns).length = returns.length := by
  simp [computeEquity, cumprod]

/-- The code's maximum drawdown is the largest fall after the first return. -/
theorem mddPct_isGreatest (timestamps : List τ) (sameLength : timestamps.length = returns.length)
    (nonempty : returns ≠ []) (positive : 0 < startingEquity)
    (aboveLoss : ∀ ret ∈ returns, -1 < ret) :
    ∃ mdd, mddPct timestamps startingEquity returns = .ok (some mdd) ∧
      IsGreatest (drawdowns (computeEquity startingEquity returns)) mdd := by
  have equities := computeEquity_pos positive aboveLoss
  have traded : computeEquity startingEquity returns ≠ [] := by
    rw [← List.length_pos_iff, length_computeEquity, List.length_pos_iff]
    exact nonempty
  obtain ⟨dd, rolled, ends, falls⟩ :=
    computeRollingDd_ok timestamps (sameLength.trans length_computeEquity.symm) traded equities
  obtain ⟨mdd, isMax, greatest⟩ := computeMaxddPct_isGreatest traded equities ends falls
  refine ⟨mdd, ?_, greatest⟩
  rw [mddPct, rolled]
  exact congrArg Except.ok isMax

/-- A first return that loses nothing leaves nothing out. -/
theorem initialLossMatched_of_first (aboveLoss : ∀ ret ∈ returns, -1 < ret)
    (gains : 1 ≤ growth returns 0 1) : InitialLossMatched returns := by
  intro k afterStart inside
  refine ⟨1, k, le_rfl, afterStart, inside, ?_⟩
  rw [← growth_mul afterStart]
  exact le_mul_of_one_le_left (growth_pos aboveLoss 1 k).le gains

/-- The maximum drawdown counts the starting equity exactly if losses from the start are matched
by losses after the first return. -/
theorem mddPct_includesStart_iff {τ α : Type} [Field α] [LinearOrder α] [IsStrictOrderedRing α]
    (timestamps : List τ) (startingEquity : α) (returns : List α)
    (sameLength : timestamps.length = returns.length) (nonempty : returns ≠ [])
    (positive : 0 < startingEquity) (aboveLoss : ∀ ret ∈ returns, -1 < ret) :
    (∃ mdd, mddPct timestamps startingEquity returns = .ok (some mdd) ∧
      IsGreatest (drawdowns (equityPath startingEquity returns)) mdd) ↔
    InitialLossMatched returns := by
  obtain ⟨mdd, computed, member, largest⟩ :=
    mddPct_isGreatest timestamps sameLength nonempty positive aboveLoss
  obtain ⟨i, j, afterStart, before, inside, isFall⟩ :=
    (mem_drawdowns_computeEquity positive aboveLoss).mp member
  constructor
  · rintro ⟨mdd', computed', -, largest'⟩ k - inRange
    obtain rfl : mdd = mdd' := by
      rw [computed] at computed'
      cases computed'
      rfl
    have bound := largest' ((mem_drawdowns_equityPath positive aboveLoss).mpr
      ⟨0, k, Nat.zero_le k, inRange, rfl⟩)
    exact ⟨i, j, afterStart, before, inside, by linarith⟩
  · intro matched
    refine ⟨mdd, computed, (mem_drawdowns_equityPath positive aboveLoss).mpr
      ⟨i, j, before, inside, isFall⟩, ?_⟩
    intro drawdown fallen
    obtain ⟨i, j, before, inside, rfl⟩ := (mem_drawdowns_equityPath positive aboveLoss).mp fallen
    have bound : ∀ i j, 1 ≤ i → i ≤ j → j ≤ returns.length → 1 - growth returns i j ≤ mdd :=
      fun i j afterStart before inside =>
        largest ((mem_drawdowns_computeEquity positive aboveLoss).mpr
          ⟨i, j, afterStart, before, inside, rfl⟩)
    rcases Nat.eq_zero_or_pos i with rfl | afterStart
    · rcases Nat.eq_zero_or_pos j with rfl | traded
      · -- no loss yet, and an equity is no fall from itself
        have still := bound 1 1 le_rfl le_rfl (List.length_pos_iff.mpr nonempty)
        rwa [growth_self] at still ⊢
      · obtain ⟨i', j', afterStart, before', inside', deeper⟩ := matched j traded inside
        have bounded := bound i' j' afterStart before' inside'
        linarith
    · exact bound i j afterStart before inside

theorem mddPct_includesStart_iff_gainFirst :
    (∃ mdd, mddPct [0, 1] (100 : ℚ) [1 / 4, -1 / 2] = .ok (some mdd) ∧
      IsGreatest (drawdowns (equityPath (100 : ℚ) [1 / 4, -1 / 2])) mdd) ↔
    InitialLossMatched ([1 / 4, -1 / 2] : List ℚ) :=
  mddPct_includesStart_iff [0, 1] 100 [1 / 4, -1 / 2] rfl (by decide) (by norm_num) (by decide +kernel)

/-- Half of the starting equity is lost, and no drawdown is found. -/
theorem firstLoss_lost : mddPct [0] (100 : ℚ) [-1 / 2] = .ok (some 0) ∧
    1 / 2 ∈ drawdowns (equityPath (100 : ℚ) [-1 / 2]) ∧
    ¬ ∃ mdd, mddPct [0] (100 : ℚ) [-1 / 2] = .ok (some mdd) ∧
      IsGreatest (drawdowns (equityPath (100 : ℚ) [-1 / 2])) mdd := by
  have computed : mddPct [0] (100 : ℚ) [-1 / 2] = .ok (some 0) := by decide +kernel
  have lost : (1 / 2 : ℚ) ∈ drawdowns (equityPath (100 : ℚ) [-1 / 2]) :=
    ⟨0, 1, 100, 50, by decide, by decide +kernel, by decide +kernel, by norm_num⟩
  refine ⟨computed, lost, ?_⟩
  rintro ⟨mdd, computed', -, largest⟩
  rw [computed] at computed'
  cases computed'
  have bound := largest lost
  norm_num at bound

end Drawdown

end Gambit.Evaluator
