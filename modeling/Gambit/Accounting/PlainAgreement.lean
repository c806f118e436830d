import Gambit.Accounting.PlainKernel

/-!
# Where the two kernels agree

A lot that a trade nets exactly stays at the plain kernel's cursor with
quantity zero, whose sign counts as positive.  A sale steps over it.  A
purchase takes it for a lot of its own side and is appended, also behind
short lots.  So the kernels part exactly where a purchase follows one that
closed whole short lots and left others open.
-/

set_option autoImplicit false

namespace Gambit.PlainKernel

open FifoNetting ComputePnl KernelFifo

/-- The plain kernel's lots are the book, with a netted lot before it if `stale`. -/
def Trails (walked book : List Trade) (stale : Prop) : Prop :=
  stale ∧ (∃ price, walked = ⟨0, price⟩ :: book) ∨ ¬ stale ∧ walked = book

theorem copysign_eq_iff {a b : Int} (ha : a ≠ 0) (hb : b ≠ 0) :
    copysign a = copysign b ↔ SameSide b a := by
  rw [sameSide_iff hb ha, copysign, copysign]
  split_ifs <;> simp <;> omega

/-- After the purchase whole short lots are gone and short lots remain. -/
def Halts (book : List Trade) (qty : Int) : Prop :=
  0 < qty ∧ EndsAt book qty ∧ total book + qty < 0

/-- On a book without a netted lot one trade does the same in both kernels. -/
theorem walk_net (price : ℚ) (book : List Trade) : ∀ (qty : Int), Legal book → qty ≠ 0 →
    profit (walk price qty book).closed = profit (net price qty book).closed ∧
      ∃ stale, Trails (walk price qty book).lots (net price qty book).lots stale ∧
        (stale ∧ total book + qty < 0 ↔ Halts book qty) := by
  induction book with
  | nil =>
      intro qty _ nonzero
      rw [net_nil price nonzero]
      refine ⟨rfl, False, Or.inr ⟨id, rfl⟩, ?_⟩
      exact iff_of_false (fun h => h.1) fun halts => endsAt_nil halts.1 halts.2.1
  | cons lot rest ih =>
      intro qty legal nonzero
      obtain ⟨side, onSide⟩ := legal
      obtain ⟨⟨lotNonzero, same⟩, restSide⟩ := onSide_cons.mp onSide
      have aligned : OnSide lot.qty (lot :: rest) := fun next member =>
        ⟨(onSide next member).1, (onSide next member).2.trans (sameSide_comm.mp same)⟩
      have restAligned : OnSide lot.qty rest := (onSide_cons.mp aligned).2
      by_cases agree : SameSide qty lot.qty
      · rw [net_sameSide price rest nonzero agree, walk,
          if_pos ((copysign_eq_iff lotNonzero nonzero).mpr agree)]
        refine ⟨rfl, False, Or.inr ⟨id, rfl⟩, iff_of_false (fun h => h.1) fun halts => ?_⟩
        rw [sameSide_iff nonzero lotNonzero] at agree
        exact not_endsAt_of_long (by have := halts.1; omega) aligned halts.1 halts.2.1
      · have opposite : ¬ copysign lot.qty = copysign qty := fun equal =>
          agree ((copysign_eq_iff lotNonzero nonzero).mp equal)
        have sides := agree
        rw [sameSide_iff nonzero lotNonzero] at sides
        rcases Nat.lt_trichotomy qty.natAbs lot.qty.natAbs with smaller | exact_ | larger
        · -- part of the lot remains
          rw [net_part price rest nonzero agree smaller, walk, if_neg opposite,
            if_neg (by omega)]
          refine ⟨rfl, False, Or.inr ⟨id, rfl⟩, iff_of_false (fun h => h.1) fun halts => ?_⟩
          have positive := halts.1
          have ends := (endsAt_cons positive).mp halts.2.1
          exact not_endsAt_of_short (by omega) restAligned (by omega) ends
        · -- the lot is netted and stays at the cursor
          have used : qty + lot.qty = 0 := by omega
          have lotEq : lot.qty = -qty := by omega
          rw [net_full price rest nonzero agree (by omega), used, net_zero, walk, if_neg opposite,
            if_neg (by omega), lotEq]
          refine ⟨rfl, True, Or.inl ⟨trivial, lot.price, by simp⟩, ?_⟩
          rw [true_and]
          constructor
          · intro short
            rw [total_cons] at short
            have negative : lot.qty < 0 := by
              by_contra long
              have := total_nonneg_of_long (by omega) restAligned
              omega
            refine ⟨by omega, ⟨1, by simp, ?_⟩, by rwa [total_cons]⟩
            simp [total_nil, lotEq]
          · exact fun halts => halts.2.2
        · -- the lot is gone and the rest of the trade meets the next one
          have left : qty + lot.qty ≠ 0 := by omega
          obtain ⟨profits, stale, trails, halts⟩ := ih (qty + lot.qty) ⟨side, restSide⟩ left
          rw [net_full price rest nonzero agree (by omega), walk, if_neg opposite, if_pos larger]
          refine ⟨by simp only [profit_cons, profits], stale, trails, ?_⟩
          have balance : total (lot :: rest) + qty = total rest + (qty + lot.qty) := by
            rw [total_cons]
            ring
          rw [balance, halts, Halts, Halts, balance]
          constructor
          · rintro ⟨positive, ends, short⟩
            exact ⟨by omega, (endsAt_cons (by omega)).mpr ends, short⟩
          · rintro ⟨positive, ends, short⟩
            exact ⟨by omega, (endsAt_cons positive).mp ends, short⟩

/-- One trade, unless it is a purchase that meets a netted lot before short ones. -/
theorem walk_trails (price : ℚ) {qty : Int} {walked book : List Trade} {stale : Prop}
    (legal : Legal book) (nonzero : qty ≠ 0) (trails : Trails walked book stale)
    (safe : ¬ (stale ∧ total book < 0 ∧ 0 < qty)) :
    profit (walk price qty walked).closed = profit (net price qty book).closed ∧
      ∃ stale', Trails (walk price qty walked).lots (net price qty book).lots stale' ∧
        (stale' ∧ total book + qty < 0 ↔ Halts book qty) := by
  rcases trails with ⟨isStale, stalePrice, rfl⟩ | ⟨_, rfl⟩
  · rcases lt_or_gt_of_ne nonzero with sells | buys
    · have steps : walk price qty (⟨0, stalePrice⟩ :: book) =
          ⟨(walk price qty book).lots, ⟨0, stalePrice, price⟩ :: (walk price qty book).closed⟩ := by
        have differ : ¬ copysign 0 = copysign qty := by
          simp [copysign, not_le.mpr sells]
        rw [walk, if_neg differ, if_pos (by simpa using nonzero)]
        simp
      rw [steps]
      obtain ⟨profits, after⟩ := walk_net price book qty legal nonzero
      exact ⟨by simpa using profits, after⟩
    · have long : 0 ≤ total book := by
        by_contra short
        exact safe ⟨isStale, not_le.mp short, buys⟩
      have appended : net price qty book = ⟨book ++ [⟨qty, price⟩], []⟩ := by
        cases book with
        | nil => exact net_nil price nonzero
        | cons lot rest =>
            obtain ⟨side, onSide⟩ := legal
            obtain ⟨⟨lotNonzero, same⟩, _⟩ := onSide_cons.mp onSide
            have aligned : OnSide lot.qty rest := fun next member =>
              ⟨((onSide_cons.mp onSide).2 next member).1,
                ((onSide_cons.mp onSide).2 next member).2.trans (sameSide_comm.mp same)⟩
            refine net_sameSide price rest nonzero ((sameSide_iff nonzero lotNonzero).mpr ?_)
            by_contra opposite
            have := total_nonpos_of_short (by omega) aligned
            rw [total_cons] at long
            omega
      have same : copysign 0 = copysign qty := by
        simp [copysign, le_of_lt buys]
      rw [appended, walk, if_pos same]
      refine ⟨rfl, True, Or.inl ⟨trivial, stalePrice, rfl⟩, ?_⟩
      exact iff_of_false (by omega) fun halts => by have := halts.2.2; omega
  · exact walk_net price walked qty legal nonzero

/-- Two purchases in a row, of which the first takes the bought total to the
end of a short lot that is not the last one. -/
def BuysPastLot (openLots trades : List Trade) : Prop :=
  ∃ before first second after, trades = before ++ first :: second :: after ∧
    0 < first.qty ∧ 0 < second.qty ∧
    bought (openLots ++ before) + first.qty < sold (openLots ++ before) ∧
    SoldTo (openLots ++ before) (bought (openLots ++ before) + first.qty)

theorem BuysPastLot.extend {openLots trades : List Trade} (parted : BuysPastLot openLots trades)
    (more : List Trade) : BuysPastLot openLots (trades ++ more) := by
  obtain ⟨before, first, second, after, rfl, rest⟩ := parted
  exact ⟨before, first, second, after ++ more, by simp, rest⟩

/-- The condition on the book is one on the order flow. -/
theorem halts_iff {openLots before : List Trade} (legal : Legal openLots)
    (nonzero : ∀ trade ∈ before, trade.qty ≠ 0) {qty : Int} :
    Halts (netAll openLots before).lots qty ↔
      0 < qty ∧ bought (openLots ++ before) + qty < sold (openLots ++ before) ∧
        SoldTo (openLots ++ before) (bought (openLots ++ before) + qty) := by
  have ledger := (Ledger.of_legal legal).netAll before nonzero
  have balance := bought_sub_sold (openLots ++ before)
  rw [Halts, ledger.totals]
  constructor
  · rintro ⟨positive, ends, short⟩
    exact ⟨positive, by omega, (ledger.ends qty positive).mp ends⟩
  · rintro ⟨positive, short, reached⟩
    exact ⟨positive, (ledger.ends qty positive).mpr reached, by omega⟩

/-- Both kernels' runs, as long as no purchase passes a netted short lot. -/
theorem walkAll_trails {openLots : List Trade} (legal : Legal openLots) (trades : List Trade)
    (nonzero : ∀ trade ∈ trades, trade.qty ≠ 0) (apart : ¬ BuysPastLot openLots trades) :
    profit (walkAll openLots trades).closed = profit (netAll openLots trades).closed ∧
      ∃ stale, Trails (walkAll openLots trades).lots (netAll openLots trades).lots stale ∧
        (stale ∧ total (netAll openLots trades).lots < 0 ↔
          ∃ before last, trades = before ++ [last] ∧
            Halts (netAll openLots before).lots last.qty) := by
  induction trades using List.reverseRecOn with
  | nil =>
      refine ⟨rfl, False, Or.inr ⟨id, rfl⟩, iff_of_false (fun h => h.1) ?_⟩
      rintro ⟨before, last, empty, _⟩
      simp at empty
  | append_singleton trades trade ih =>
      have earlier : ∀ t ∈ trades, t.qty ≠ 0 := fun t member =>
        nonzero t (List.mem_append_left _ member)
      have tradeNonzero : trade.qty ≠ 0 := nonzero trade (by simp)
      obtain ⟨profits, stale, trails, meets⟩ := ih earlier fun parted => apart (parted.extend _)
      have bookLegal := netAll_legal openLots trades legal
      have safe : ¬ (stale ∧ total (netAll openLots trades).lots < 0 ∧ 0 < trade.qty) := by
        rintro ⟨isStale, short, buys⟩
        obtain ⟨before, first, rfl, halts⟩ := meets.mp ⟨isStale, short⟩
        have beforeNonzero : ∀ t ∈ before, t.qty ≠ 0 := fun t member =>
          earlier t (List.mem_append_left _ member)
        obtain ⟨positive, remains, reached⟩ := (halts_iff legal beforeNonzero).mp halts
        exact apart ⟨before, first, trade, [], by simp, positive, buys, remains, reached⟩
      obtain ⟨profits', stale', trails', meets'⟩ :=
        walk_trails trade.price bookLegal tradeNonzero trails safe
      rw [walkAll_append, netAll_append]
      simp only [walkAll, netAll_cons, netAll_nil, List.append_nil, profit_append]
      refine ⟨by rw [profits, profits'], stale', trails', ?_⟩
      rw [net_total, meets']
      constructor
      · exact fun halts => ⟨trades, trade, rfl, halts⟩
      · rintro ⟨before, last, split, halts⟩
        obtain ⟨rfl, sameLast⟩ := List.append_inj' split rfl
        rw [List.cons.injEq] at sameLast
        exact sameLast.1 ▸ halts

theorem Trails.kept {walked book : List Trade} {stale : Prop} (trails : Trails walked book stale)
    (legal : Legal book) : (walked.filter fun lot => lot.qty ≠ 0) = book := by
  obtain ⟨side, onSide⟩ := legal
  have allKept : (book.filter fun lot => lot.qty ≠ 0) = book := by
    rw [List.filter_eq_self]
    intro lot member
    simpa using (onSide lot member).1
  rcases trails with ⟨_, price, rfl⟩ | ⟨_, rfl⟩
  · rw [List.filter_cons_of_neg (by simp), allKept]
  · exact allKept

/-- The purchase that meets a netted short lot leaves lots of both sides. -/
theorem walk_past_lot {openLots before : List Trade} {first second : Trade}
    (legal : Legal openLots) (nonzero : ∀ trade ∈ before ++ [first], trade.qty ≠ 0)
    (apart : ¬ BuysPastLot openLots (before ++ [first]))
    (halts : Halts (netAll openLots before).lots first.qty) (buys : 0 < second.qty) :
    ((walkAll openLots (before ++ [first, second])).lots.filter fun lot => lot.qty ≠ 0) ≠
      (netAll openLots (before ++ [first, second])).lots := by
  obtain ⟨_, stale, trails, meets⟩ := walkAll_trails legal (before ++ [first]) nonzero apart
  obtain ⟨isStale, short⟩ := meets.mpr ⟨before, first, rfl, halts⟩
  have bookLegal := netAll_legal openLots (before ++ [first]) legal
  have kept := trails.kept bookLegal
  rcases trails with ⟨_, price, walked⟩ | ⟨notStale, _⟩
  · rw [show before ++ [first, second] = (before ++ [first]) ++ [second] by simp, walkAll_append,
      netAll_append, walked]
    rw [walked, List.filter_cons_of_neg (by simp)] at kept
    have appended : walk second.price second.qty
        (⟨0, price⟩ :: (netAll openLots (before ++ [first])).lots) =
          ⟨⟨0, price⟩ :: (netAll openLots (before ++ [first])).lots ++ [second], []⟩ := by
      rw [walk, if_pos (by simp [copysign, le_of_lt buys])]
    simp only [walkAll, appended, List.cons_append]
    rw [List.filter_cons_of_neg (by simp), List.filter_append, kept,
      List.filter_cons_of_pos (by simpa using buys.ne')]
    intro same
    -- the kernel's lots are of one side, the plain kernel's are not
    have mixed := netAll_legal _ [second] bookLegal
    rw [← same] at mixed
    obtain ⟨side, onSide⟩ := mixed
    obtain ⟨shortSide, longSide⟩ := onSide_append.mp onSide
    obtain ⟨⟨secondNonzero, sameSide⟩, _⟩ := onSide_cons.mp longSide
    have aligned : OnSide second.qty (netAll openLots (before ++ [first])).lots :=
      onSide_of_sameSide (sameSide_comm.mp sameSide) shortSide
    have := total_nonneg_of_long buys aligned
    omega
  · exact absurd isStale notStale

/-- Without such a purchase the kernels agree. -/
theorem walkAll_agrees {openLots : List Trade} (legal : Legal openLots) (trades : List Trade)
    (nonzero : ∀ trade ∈ trades, trade.qty ≠ 0) (apart : ¬ BuysPastLot openLots trades) :
    ((walkAll openLots trades).lots.filter fun lot => lot.qty ≠ 0) =
        (netAll openLots trades).lots ∧
      profit (walkAll openLots trades).closed = profit (netAll openLots trades).closed := by
  obtain ⟨profits, stale, trails, _⟩ := walkAll_trails legal trades nonzero apart
  exact ⟨trails.kept (netAll_legal openLots trades legal), profits⟩

/-- If the lots agree after every trade, there was no such purchase. -/
theorem apart_of_agree {openLots : List Trade} (legal : Legal openLots) (trades : List Trade)
    (nonzero : ∀ trade ∈ trades, trade.qty ≠ 0)
    (agree : ∀ prior, prior <+: trades →
      ((walkAll openLots prior).lots.filter fun lot => lot.qty ≠ 0) =
        (netAll openLots prior).lots) : ¬ BuysPastLot openLots trades := by
  induction trades using List.reverseRecOn with
  | nil =>
      rintro ⟨before, first, second, after, empty, _⟩
      simp at empty
  | append_singleton trades trade ih =>
      intro parted
      have earlier : ∀ t ∈ trades, t.qty ≠ 0 := fun t member =>
        nonzero t (List.mem_append_left _ member)
      have apart := ih earlier fun prior before =>
        agree prior (before.trans (List.prefix_append ..))
      obtain ⟨before, first, second, after, split, positive, buys, remains, reached⟩ := parted
      rcases List.eq_nil_or_concat after with rfl | ⟨shorter, last, rfl⟩
      · have tradesEq : trades = before ++ [first] ∧ trade = second := by
          have := List.append_inj' (split.trans (by simp :
            before ++ [first, second] = (before ++ [first]) ++ [second])) rfl
          simpa using this
        obtain ⟨rfl, rfl⟩ := tradesEq
        have beforeNonzero : ∀ t ∈ before, t.qty ≠ 0 := fun t member =>
          earlier t (List.mem_append_left _ member)
        have halts := (halts_iff legal beforeNonzero).mpr ⟨positive, remains, reached⟩
        have whole := agree _ List.prefix_rfl
        rw [List.append_assoc, List.singleton_append] at whole
        exact walk_past_lot legal earlier apart halts buys whole
      · have tradesEq : trades = before ++ first :: second :: shorter := by
          have := List.append_inj' (split.trans (by simp :
            before ++ first :: second :: shorter.concat last =
              (before ++ first :: second :: shorter) ++ [last])) rfl
          exact this.1
        exact apart ⟨before, first, second, shorter, tradesEq, positive, buys, remains, reached⟩

theorem openLots_unzip (entries : List (Int × ℚ)) :
    openLots (entries.map Prod.fst) (entries.map Prod.snd) = toOpenLots entries := by
  rw [openLots, lots_unzip, toOpenLots]

theorem nonzero_of_mem_toOpenLots {entries : List (Int × ℚ)} :
    ∀ trade ∈ toOpenLots entries, trade.qty ≠ 0 := by
  intro trade member
  simpa using (List.mem_filter.mp member).2

theorem eq_of_columns {left right : List Trade} (sameQtys : left.map Lot.qty = right.map Lot.qty)
    (samePrices : left.map Lot.price = right.map Lot.price) : left = right := by
  rw [← lots_map left, sameQtys, samePrices, lots_map]

/-- The kernels agree on every prefix of the new trades if and only if no
purchase follows one that ended on a short lot before the last. -/
theorem calcTradePnlOld_agrees_iff (openEntries newEntries : List (Int × ℚ)) (multiplier : ℚ)
    (oneSigned : OneSigned (openEntries.map Prod.fst)) :
    (∀ entries, entries <+: newEntries →
      calcTradePnlOld (openEntries.map Prod.fst) (openEntries.map Prod.snd)
          (entries.map Prod.fst) (entries.map Prod.snd) multiplier =
        calcTradePnl (openEntries.map Prod.fst) (openEntries.map Prod.snd)
          (entries.map Prod.fst) (entries.map Prod.snd) multiplier) ↔
      ¬ BuysPastLot (toOpenLots openEntries) (toOpenLots newEntries) := by
  have legal := legal_of_oneSigned oneSigned
  have plain : ∀ entries : List (Int × ℚ), _ := fun entries =>
    calcTradePnlOld_eq (openEntries.map Prod.fst) (openEntries.map Prod.snd)
      (entries.map Prod.fst) (entries.map Prod.snd) multiplier (by simp) (by simp)
  have optimised : ∀ entries : List (Int × ℚ), _ := fun entries =>
    calcTradePnl_pairs openEntries entries multiplier legal
  have skips : ∀ entries : List (Int × ℚ),
      netAll (toOpenLots openEntries) (toLots entries) =
        netAll (toOpenLots openEntries) (toOpenLots entries) := fun entries =>
    (netAll_filter _ _).symm
  simp only [openLots_unzip] at plain
  constructor
  · intro agree
    refine apart_of_agree legal _ nonzero_of_mem_toOpenLots fun prior before => ?_
    obtain ⟨shown, beforeShown, rfl⟩ := List.prefix_filter_iff.mp before
    obtain ⟨entries, beforeEntries, rfl⟩ := List.prefix_map_iff.mp beforeShown
    have same := agree entries beforeEntries
    rw [plain, optimised, skips] at same
    simp only [Except.ok.injEq, PnlResult.mk.injEq] at same
    obtain ⟨sameQtys, samePrices, _⟩ := same
    exact eq_of_columns sameQtys samePrices
  · intro apart entries within
    have shorter : toOpenLots entries <+: toOpenLots newEntries := (within.map _).filter _
    have entriesApart : ¬ BuysPastLot (toOpenLots openEntries) (toOpenLots entries) := by
      obtain ⟨rest, extended⟩ := shorter
      exact fun parted => apart (extended ▸ parted.extend rest)
    obtain ⟨sameLots, sameProfit⟩ := walkAll_agrees legal _ nonzero_of_mem_toOpenLots entriesApart
    rw [plain, optimised, skips]
    simp only [sameLots, sameProfit]

/-- A purchase that closes a short lot exactly, then a sale, then a purchase. -/
theorem calcTradePnlOld_agrees_iff_sale_between :
    calcTradePnlOld [-5, -8] [1, 2] [5, -1, 3] [3, 4, 4] 1 =
        calcTradePnl [-5, -8] [1, 2] [5, -1, 3] [3, 4, 4] 1 ∧
      ∀ entries, entries <+: [((5 : Int), (3 : ℚ)), (-1, 4), (3, 4)] →
        calcTradePnlOld [-5, -8] [1, 2] (entries.map Prod.fst) (entries.map Prod.snd) 1 =
          calcTradePnl [-5, -8] [1, 2] (entries.map Prod.fst) (entries.map Prod.snd) 1 := by
  refine (fun agree => ⟨agree _ (List.prefix_refl _), agree⟩) <|
    (calcTradePnlOld_agrees_iff [(-5, 1), (-8, 2)] [(5, 3), (-1, 4), (3, 4)] 1
    (Or.inr (by decide))).mpr ?_
  have trades : toOpenLots [((5 : Int), (3 : ℚ)), (-1, 4), (3, 4)] = [⟨5, 3⟩, ⟨-1, 4⟩, ⟨3, 4⟩] := by
    decide +kernel
  rw [trades]
  rintro ⟨before, first, second, after, split, positive, buys, _⟩
  rcases before with _ | ⟨_, _ | ⟨_, _ | ⟨_, _ | ⟨_, before⟩⟩⟩⟩ <;>
    simp only [List.nil_append, List.cons_append, List.cons.injEq] at split
  · obtain ⟨_, rfl, _⟩ := split
    exact absurd buys (by decide)
  · obtain ⟨_, rfl, _⟩ := split
    exact absurd positive (by decide)
  · simp at split
  · simp at split
  · simp at split

/-- Two purchases against two short lots, the first closing the first lot. -/
theorem calcTradePnlOld_parts :
    calcTradePnlOld [-5, -8] [1, 2] [5, 3] [3, 4] 1 ≠
      calcTradePnl [-5, -8] [1, 2] [5, 3] [3, 4] 1 := by
  decide +kernel

end Gambit.PlainKernel
