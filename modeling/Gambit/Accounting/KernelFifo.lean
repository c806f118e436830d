import Gambit.Accounting.ComputePnl

/-!
# The kernel is first-in first-out netting

The two windows of the loop hold lists; one iteration of the loop is one step
of the textbook recursion.  The loop stays inside its blocks because every
push consumes a new trade for which a slot was reserved.
-/

set_option autoImplicit false

namespace Gambit.KernelFifo

open FifoNetting ComputePnl

/-! ## What a window holds -/

/-- The window lies inside its block, with `spare` free slots behind it, and
reads as `content`. -/
structure Holds (vec : TradeVec) (spare : Nat) (content : List Trade) : Prop where
  fits : vec.startIdx + vec.size + spare ≤ vec.trades.length
  reads : (vec.trades.drop vec.startIdx).take vec.size = content

theorem Holds.size_eq {vec : TradeVec} {spare : Nat} {content : List Trade}
    (h : Holds vec spare content) : vec.size = content.length := by
  rw [← h.reads, List.length_take, List.length_drop]
  have := h.fits
  omega

theorem Holds.at_eq {vec : TradeVec} {spare : Nat} {content : List Trade}
    (h : Holds vec spare content) (i : Nat) (inside : i < vec.size) : vec.at i = content[i]? := by
  rw [← h.reads, List.getElem?_take_of_lt inside, List.getElem?_drop]
  rfl

theorem Holds.push {vec : TradeVec} {spare : Nat} {content : List Trade}
    (h : Holds vec (spare + 1) content) (trade : Trade) :
    ∃ pushed, pushBack vec trade = some pushed ∧ Holds pushed spare (content ++ [trade]) := by
  have fits := h.fits
  have sizeEq := h.size_eq
  have inside : vec.startIdx + vec.size < vec.trades.length := by omega
  refine ⟨⟨vec.startIdx, vec.size + 1, vec.trades.set (vec.startIdx + vec.size) trade⟩, ?_, ?_, ?_⟩
  · simp [pushBack, TradeVec.write, ← Nat.add_assoc, inside]
  · simp only [List.length_set]
    omega
  · apply List.ext_getElem?
    intro i
    dsimp only
    rw [List.getElem?_take]
    split
    · rename_i below
      rw [List.getElem?_drop, List.getElem?_set]
      by_cases last : i = vec.size
      · subst last
        rw [if_pos rfl, if_pos inside, sizeEq]
        simp
      · have earlier : i < vec.size := by omega
        rw [if_neg (by omega), List.getElem?_append_left (by omega)]
        exact (h.at_eq i earlier)
    · rename_i beyond
      rw [eq_comm, List.getElem?_eq_none_iff]
      simp only [List.length_append, List.length_cons, List.length_nil]
      omega

theorem Holds.pop {vec : TradeVec} {spare : Nat} {trade : Trade} {rest : List Trade}
    (h : Holds vec spare (trade :: rest)) : Holds (popFront vec) spare rest := by
  have fits := h.fits
  have sizeEq := h.size_eq
  simp only [List.length_cons] at sizeEq
  constructor
  · simp only [popFront]
    omega
  · have reads := congrArg List.tail h.reads
    rw [List.tail_cons, ← List.drop_one, List.drop_take, List.drop_drop] at reads
    exact reads

theorem Holds.write {vec : TradeVec} {spare : Nat} {trade : Trade} {rest : List Trade}
    (h : Holds vec spare (trade :: rest)) (update : Trade) :
    ∃ written, vec.write vec.startIdx update = some written ∧
      Holds written spare (update :: rest) ∧ written.startIdx = vec.startIdx := by
  have fits := h.fits
  have sizeEq := h.size_eq
  simp only [List.length_cons] at sizeEq
  have inside : vec.startIdx < vec.trades.length := by omega
  refine ⟨⟨vec.startIdx, vec.size, vec.trades.set vec.startIdx update⟩, ?_, ⟨?_, ?_⟩, rfl⟩
  · simp [TradeVec.write, inside]
  · simpa only [List.length_set] using fits
  · have split : vec.trades.drop vec.startIdx =
        vec.trades[vec.startIdx] :: vec.trades.drop (vec.startIdx + 1) :=
      List.drop_eq_getElem_cons inside
    have reads := h.reads
    rw [split, sizeEq, List.take_succ_cons] at reads
    have tailEq := (List.cons.inj reads).2
    rw [List.drop_set, if_neg (lt_irrefl _), Nat.sub_self, split, List.set_cons_zero, sizeEq,
      List.take_succ_cons, tailEq]

theorem Holds.head {vec : TradeVec} {spare : Nat} {trade : Trade} {rest : List Trade}
    (h : Holds vec spare (trade :: rest)) : vec.at 0 = some trade := by
  have sizeEq := h.size_eq
  simp only [List.length_cons] at sizeEq
  rw [h.at_eq 0 (by omega)]
  rfl

theorem Holds.mapM_at {vec : TradeVec} {spare : Nat} {content : List Trade}
    (h : Holds vec spare content) : (List.range vec.size).mapM vec.at = some content := by
  have each : ∀ k, k ≤ vec.size →
      (List.range k).mapM vec.at = some (content.take k) := by
    intro k
    induction k with
    | zero => intro _; rfl
    | succ k ih =>
        intro bound
        have sizeEq := h.size_eq
        have inside : k < content.length := by omega
        rw [List.range_succ, List.mapM_append, ih (by omega)]
        simp [h.at_eq k (by omega), List.getElem?_eq_getElem inside]
  rw [each vec.size le_rfl, h.size_eq, List.take_length]

/-! ## Reading the input arrays -/

def lots (qtys : List Int) (prices : List ℚ) : List Trade :=
  (qtys.zip prices).map fun entry => ⟨entry.1, entry.2⟩

def openLots (qtys : List Int) (prices : List ℚ) : List Trade :=
  (lots qtys prices).filter fun lot => lot.qty ≠ 0

theorem create_holds (qtys : List Int) (prices : List ℚ) (extra : Nat) :
    ∃ vec, create qtys prices extra = some vec ∧ Holds vec extra (openLots qtys prices) := by
  have run : ∀ (entries : List (Int × ℚ)) (vec : TradeVec) (content : List Trade),
      vec.startIdx = 0 → Holds vec (entries.length + extra) content →
      ∃ final, entries.foldlM
          (fun vec entry =>
            if entry.1 ≠ 0 then do
              let written ← vec.write vec.size ⟨entry.1, entry.2⟩
              some { written with size := written.size + 1 }
            else some vec) vec = some final ∧
        Holds final extra (content ++
          (entries.map fun entry => (⟨entry.1, entry.2⟩ : Trade)).filter fun lot => lot.qty ≠ 0) := by
    intro entries
    induction entries with
    | nil =>
        intro vec content _ h
        refine ⟨vec, rfl, ?_⟩
        simpa using h
    | cons entry entries ih =>
        intro vec content start h
        by_cases zero : entry.1 = 0
        · have less : Holds vec (entries.length + extra) content := by
            refine ⟨?_, h.reads⟩
            have := h.fits
            simp only [List.length_cons] at this
            omega
          obtain ⟨final, runs, holds⟩ := ih vec content start less
          refine ⟨final, ?_, ?_⟩
          · simpa [zero] using runs
          · simpa [zero] using holds
        · have room : Holds vec ((entries.length + extra) + 1) content := by
            refine ⟨?_, h.reads⟩
            have := h.fits
            simp only [List.length_cons] at this
            omega
          obtain ⟨pushed, pushes, holdsPushed⟩ := room.push ⟨entry.1, entry.2⟩
          have inside : vec.size < vec.trades.length := by
            have := room.fits
            omega
          have pushedEq : pushed = ⟨0, vec.size + 1, vec.trades.set vec.size ⟨entry.1, entry.2⟩⟩ := by
            simp [pushBack, TradeVec.write, start, inside] at pushes
            exact pushes.symm
          obtain ⟨final, runs, holds⟩ := ih pushed (content ++ [⟨entry.1, entry.2⟩])
            (by rw [pushedEq]) holdsPushed
          refine ⟨final, ?_, ?_⟩
          · rw [pushedEq] at runs
            simpa [zero, TradeVec.write, inside, start] using runs
          · simpa [zero] using holds
  have initial : Holds ⟨0, 0, List.replicate (qtys.length + extra) ⟨0, 0⟩⟩
      ((qtys.zip prices).length + extra) [] := by
    constructor
    · simp only [List.length_replicate, List.length_zip]
      omega
    · simp
  obtain ⟨final, runs, holds⟩ := run (qtys.zip prices) _ [] rfl initial
  refine ⟨final, runs, ?_⟩
  simpa [openLots, lots] using holds

/-! ## The netting step -/

theorem netTrade_full {position trade : Trade} (covers : position.qty.natAbs ≤ trade.qty.natAbs) :
    netTrade position trade =
      ⟨position.qty * (trade.price - position.price), ⟨0, position.price⟩,
        ⟨trade.qty + position.qty, trade.price⟩⟩ := by
  have smaller : (if 0 ≤ position.qty then position.qty else -position.qty) ≤
      (if 0 ≤ trade.qty then trade.qty else -trade.qty) := by
    split_ifs <;> omega
  simp only [netTrade, if_pos smaller, sub_self]

theorem netTrade_part {position trade : Trade} (smaller : trade.qty.natAbs < position.qty.natAbs) :
    netTrade position trade =
      ⟨(-trade.qty : ℚ) * (trade.price - position.price),
        ⟨position.qty + trade.qty, position.price⟩, ⟨0, trade.price⟩⟩ := by
  have larger : ¬ (if 0 ≤ position.qty then position.qty else -position.qty) ≤
      (if 0 ≤ trade.qty then trade.qty else -trade.qty) := by
    split_ifs <;> omega
  simp only [netTrade, if_neg larger, sub_neg_eq_add, add_neg_cancel, Int.cast_neg]

/-- The loop nets the trades of one window against the lots of the other. -/
theorem calcLoop_nets (fuel : Nat) : ∀ (trades positions : TradeVec) (realized : ℚ)
    (spare : Nat) (new book : List Trade),
    Holds trades spare new → Holds positions new.length book →
    (∀ trade ∈ new, trade.qty ≠ 0) → Legal book →
    2 * new.length + book.length < fuel →
    ∃ final, calcLoop fuel trades positions realized =
        some (final, realized + profit (netAll book new).closed) ∧
      Holds final 0 (netAll book new).lots := by
  induction fuel with
  | zero => intro _ _ _ _ _ _ _ _ _ _ enough; omega
  | succ fuel ih =>
      intro trades positions realized spare new book holdsNew holdsBook nonzero legal enough
      rw [calcLoop]
      cases new with
      | nil =>
          have empty : trades.size = 0 := holdsNew.size_eq
          rw [if_pos empty]
          exact ⟨positions, by simp, by simpa using holdsBook⟩
      | cons trade new =>
          have tradeNonzero := nonzero trade (List.mem_cons_self ..)
          have restNonzero : ∀ t ∈ new, t.qty ≠ 0 := fun t member =>
            nonzero t (List.mem_cons_of_mem _ member)
          have sizeEq := holdsNew.size_eq
          simp only [List.length_cons] at sizeEq enough holdsBook
          rw [if_neg (by omega), holdsNew.head]
          simp only [Option.bind_eq_bind, Option.bind_some]
          cases book with
          | nil =>
              have empty : positions.size = 0 := holdsBook.size_eq
              rw [if_pos empty]
              obtain ⟨pushed, pushes, holdsPushed⟩ := holdsBook.push trade
              have opened : Legal ([] ++ [trade]) := by
                have := net_legal trade.price trade.qty [] legal
                rwa [net_nil trade.price tradeNonzero] at this
              obtain ⟨final, runs, holds⟩ := ih (popFront trades) pushed realized spare new
                ([] ++ [trade]) holdsNew.pop holdsPushed restNonzero opened (by simp; omega)
              rw [pushes, Option.bind_some, netAll_cons, net_nil trade.price tradeNonzero]
              exact ⟨final, runs, holds⟩
          | cons lot book =>
              have sizeEq' := holdsBook.size_eq
              simp only [List.length_cons] at sizeEq' enough
              rw [if_neg (by omega), holdsBook.head, Option.bind_some]
              by_cases same : trade.qty.sign = lot.qty.sign
              · rw [if_pos same]
                obtain ⟨pushed, pushes, holdsPushed⟩ := holdsBook.push trade
                have grown : Legal (lot :: book ++ [trade]) := by
                  have := net_legal trade.price trade.qty (lot :: book) legal
                  rwa [net_sameSide trade.price book tradeNonzero same] at this
                obtain ⟨final, runs, holds⟩ := ih (popFront trades) pushed realized spare new
                  (lot :: book ++ [trade]) holdsNew.pop holdsPushed restNonzero grown
                  (by simp; omega)
                rw [pushes, Option.bind_some, netAll_cons,
                  net_sameSide trade.price book tradeNonzero same]
                exact ⟨final, runs, holds⟩
              · rw [if_neg same]
                obtain ⟨side, hs⟩ := legal
                have lotNonzero := ((onSide_cons.mp hs).1).1
                by_cases smaller : trade.qty.natAbs < lot.qty.natAbs
                · -- the lot survives with a smaller quantity
                  obtain ⟨written, writes, holdsWritten, _⟩ :=
                    holdsBook.write ⟨lot.qty + trade.qty, lot.price⟩
                  obtain ⟨spent, spends, holdsSpent, _⟩ := holdsNew.write ⟨0, trade.price⟩
                  have remains : lot.qty + trade.qty ≠ 0 := by omega
                  have legal' : Legal (⟨lot.qty + trade.qty, lot.price⟩ :: book) := by
                    have := net_legal trade.price trade.qty (lot :: book) ⟨side, hs⟩
                    rwa [net_part trade.price book tradeNonzero same smaller] at this
                  have holdsLess : Holds written new.length
                      (⟨lot.qty + trade.qty, lot.price⟩ :: book) :=
                    ⟨by have := holdsWritten.fits; omega, holdsWritten.reads⟩
                  obtain ⟨final, runs, holds⟩ := ih (popFront spent) written
                    (realized + -trade.qty * (trade.price - lot.price)) spare new
                    (⟨lot.qty + trade.qty, lot.price⟩ :: book) holdsSpent.pop holdsLess restNonzero
                    legal' (by simp only [List.length_cons]; omega)
                  rw [netTrade_part smaller, writes, Option.bind_some, spends, Option.bind_some,
                    if_neg remains, if_pos rfl, runs, netAll_cons,
                    net_part trade.price book tradeNonzero same smaller]
                  refine ⟨final, ?_, holds⟩
                  simp [add_assoc]
                · -- the lot is closed; what is left of the trade meets the next lot
                  have covers := Nat.not_lt.mp smaller
                  obtain ⟨written, writes, holdsWritten, _⟩ := holdsBook.write ⟨0, lot.price⟩
                  obtain ⟨spent, spends, holdsSpent, _⟩ :=
                    holdsNew.write ⟨trade.qty + lot.qty, trade.price⟩
                  have legal' : Legal book := ⟨side, (onSide_cons.mp hs).2⟩
                  have step : netAll (lot :: book) (trade :: new) =
                      ⟨(netAll book (⟨trade.qty + lot.qty, trade.price⟩ :: new)).lots,
                        ⟨lot.qty, lot.price, trade.price⟩ ::
                          (netAll book (⟨trade.qty + lot.qty, trade.price⟩ :: new)).closed⟩ := by
                    rw [netAll_cons, net_full trade.price book tradeNonzero same covers, netAll_cons]
                    rfl
                  rw [netTrade_full covers, writes, Option.bind_some, spends, Option.bind_some,
                    if_pos rfl, step]
                  by_cases used : trade.qty + lot.qty = 0
                  · rw [if_pos used, used]
                    have holdsLess : Holds (popFront written) new.length book :=
                      ⟨by have := holdsWritten.pop.fits; omega, holdsWritten.pop.reads⟩
                    obtain ⟨final, runs, holds⟩ := ih (popFront spent) (popFront written)
                      (realized + lot.qty * (trade.price - lot.price)) spare new book holdsSpent.pop
                      holdsLess restNonzero legal' (by omega)
                    rw [runs, netAll_skip_zero]
                    refine ⟨final, ?_, holds⟩
                    simp [add_assoc]
                  · rw [if_neg used]
                    have left : ∀ t ∈ (⟨trade.qty + lot.qty, trade.price⟩ :: new : List Trade),
                        t.qty ≠ 0 := by
                      intro t member
                      rcases List.mem_cons.mp member with rfl | member
                      · exact used
                      · exact restNonzero t member
                    obtain ⟨final, runs, holds⟩ := ih spent (popFront written)
                      (realized + lot.qty * (trade.price - lot.price)) spare
                      (⟨trade.qty + lot.qty, trade.price⟩ :: new) book holdsSpent holdsWritten.pop
                      left legal' (by simp only [List.length_cons]; omega)
                    rw [runs]
                    refine ⟨final, ?_, holds⟩
                    simp [add_assoc]

/-- The kernel's closed form: the lots are those of the textbook netting and
the realized amount is the profit of its matches. -/
theorem calcTradePnl_eq (openQtys : List Int) (openPrices : List ℚ) (newQtys : List Int)
    (newPrices : List ℚ) (multiplier : ℚ) (sameOpen : openQtys.length = openPrices.length)
    (sameNew : newQtys.length = newPrices.length) (legal : Legal (openLots openQtys openPrices)) :
    calcTradePnl openQtys openPrices newQtys newPrices multiplier =
      let netted := netAll (openLots openQtys openPrices) (lots newQtys newPrices)
      .ok ⟨netted.lots.map Lot.qty, netted.lots.map Lot.price,
        multiplier * profit netted.closed⟩ := by
  obtain ⟨trades, createsNew, holdsNew⟩ := create_holds newQtys newPrices 0
  obtain ⟨positions, createsOpen, holdsOpen⟩ := create_holds openQtys openPrices newQtys.length
  have fewer : (openLots newQtys newPrices).length ≤ newQtys.length := by
    refine (List.length_filter_le _ _).trans ?_
    simp only [lots, List.length_map, List.length_zip]
    omega
  have room : Holds positions (openLots newQtys newPrices).length
      (openLots openQtys openPrices) :=
    ⟨by have := holdsOpen.fits; omega, holdsOpen.reads⟩
  have nonzero : ∀ trade ∈ openLots newQtys newPrices, trade.qty ≠ 0 := by
    intro trade member
    simpa using (List.mem_filter.mp member).2
  obtain ⟨final, runs, holds⟩ := calcLoop_nets (2 * trades.size + positions.size + 1) trades
    positions 0 0 (openLots newQtys newPrices) (openLots openQtys openPrices) holdsNew room nonzero
    legal (by rw [holdsNew.size_eq, holdsOpen.size_eq]; omega)
  have skips : netAll (openLots openQtys openPrices) (openLots newQtys newPrices) =
      netAll (openLots openQtys openPrices) (lots newQtys newPrices) :=
    netAll_filter _ _
  rw [skips] at runs holds
  have result : kernel openQtys openPrices newQtys newPrices multiplier =
      some ⟨(netAll (openLots openQtys openPrices) (lots newQtys newPrices)).lots.map Lot.qty,
        (netAll (openLots openQtys openPrices) (lots newQtys newPrices)).lots.map Lot.price,
        multiplier * profit
          (netAll (openLots openQtys openPrices) (lots newQtys newPrices)).closed⟩ := by
    simp only [kernel, createsNew, createsOpen, Option.bind_eq_bind, Option.bind_some, runs,
      holds.mapM_at, zero_add]
    rw [mul_comm]
  simp only [calcTradePnl, sameOpen, sameNew, result, ne_eq, not_true_eq_false, if_false]

/-! ## Consecutive calls -/

/-- The kernel called once per batch, each call on the lots the last one left. -/
def calcBatches (multiplier : ℚ) (openQtys : List Int) (openPrices : List ℚ) :
    List (List (Int × ℚ)) → Except Exn PnlResult
  | [] => .ok ⟨openQtys, openPrices, 0⟩
  | batch :: batches => do
      let head ← calcTradePnl openQtys openPrices (batch.map Prod.fst) (batch.map Prod.snd) multiplier
      let tail ← calcBatches multiplier head.openQtys head.openPrices batches
      .ok ⟨tail.openQtys, tail.openPrices, head.realized + tail.realized⟩

/-- No two quantities of opposite signs; zeros are allowed. -/
def OneSigned (qtys : List Int) : Prop := (∀ qty ∈ qtys, 0 ≤ qty) ∨ (∀ qty ∈ qtys, qty ≤ 0)

def toLots (entries : List (Int × ℚ)) : List Trade := entries.map fun entry => ⟨entry.1, entry.2⟩

def toOpenLots (entries : List (Int × ℚ)) : List Trade :=
  (toLots entries).filter fun lot => lot.qty ≠ 0

theorem lots_unzip (entries : List (Int × ℚ)) :
    lots (entries.map Prod.fst) (entries.map Prod.snd) = toLots entries := by
  simp [lots, toLots, List.zip_map']

theorem lots_map (book : List Trade) : lots (book.map Lot.qty) (book.map Lot.price) = book := by
  simp [lots, List.zip_map', Function.comp_def]

theorem openLots_map_of_legal {book : List Trade} (legal : Legal book) :
    openLots (book.map Lot.qty) (book.map Lot.price) = book := by
  obtain ⟨side, hs⟩ := legal
  rw [openLots, lots_map, List.filter_eq_self]
  intro lot member
  simpa using (hs lot member).1

theorem legal_of_oneSigned {entries : List (Int × ℚ)}
    (oneSigned : OneSigned (entries.map Prod.fst)) : Legal (toOpenLots entries) := by
  have member_qty : ∀ lot ∈ toOpenLots entries, lot.qty ≠ 0 ∧ lot.qty ∈ entries.map Prod.fst := by
    intro lot member
    obtain ⟨listed, nonzero⟩ := List.mem_filter.mp member
    obtain ⟨entry, entryMember, rfl⟩ := List.mem_map.mp listed
    exact ⟨by simpa using nonzero, List.mem_map_of_mem entryMember⟩
  rcases oneSigned with h | h
  · refine ⟨1, fun lot member => ?_⟩
    obtain ⟨nonzero, listed⟩ := member_qty lot member
    have := h lot.qty listed
    exact ⟨nonzero, (sameSide_iff nonzero one_ne_zero).mpr (by omega)⟩
  · refine ⟨-1, fun lot member => ?_⟩
    obtain ⟨nonzero, listed⟩ := member_qty lot member
    have := h lot.qty listed
    exact ⟨nonzero, (sameSide_iff nonzero (by omega)).mpr (by omega)⟩

theorem oneSigned_of_legal {book : List Trade} (legal : Legal book) :
    OneSigned (book.map Lot.qty) := by
  obtain ⟨side, hs⟩ := legal
  rcases lt_trichotomy side 0 with negative | zero | positive
  · refine Or.inr fun qty member => ?_
    obtain ⟨lot, lotMember, rfl⟩ := List.mem_map.mp member
    have := (sameSide_iff (hs lot lotMember).1 negative.ne).mp (hs lot lotMember).2
    omega
  · refine Or.inl fun qty member => ?_
    obtain ⟨lot, lotMember, rfl⟩ := List.mem_map.mp member
    have same : lot.qty.sign = (0 : Int).sign := zero ▸ (hs lot lotMember).2
    exact (Int.sign_eq_zero_iff_zero.mp (by simpa using same)).ge
  · refine Or.inl fun qty member => ?_
    obtain ⟨lot, lotMember, rfl⟩ := List.mem_map.mp member
    have := (sameSide_iff (hs lot lotMember).1 positive.ne').mp (hs lot lotMember).2
    omega

theorem total_toLots (entries : List (Int × ℚ)) :
    total (toLots entries) = (entries.map Prod.fst).sum := by
  simp [total, toLots, Function.comp_def]

theorem total_toOpenLots (entries : List (Int × ℚ)) :
    total (toOpenLots entries) = (entries.map Prod.fst).sum := by
  rw [← total_toLots]
  simp only [toOpenLots]
  induction toLots entries with
  | nil => rfl
  | cons lot rest ih =>
      by_cases zero : lot.qty = 0
      · rw [List.filter_cons_of_neg (by simpa using zero), ih, total_cons, zero, zero_add]
      · rw [List.filter_cons_of_pos (by simpa using zero), total_cons, total_cons, ih]

theorem calcTradePnl_pairs (openEntries newEntries : List (Int × ℚ)) (multiplier : ℚ)
    (legal : Legal (toOpenLots openEntries)) :
    calcTradePnl (openEntries.map Prod.fst) (openEntries.map Prod.snd)
        (newEntries.map Prod.fst) (newEntries.map Prod.snd) multiplier =
      let netted := netAll (toOpenLots openEntries) (toLots newEntries)
      .ok ⟨netted.lots.map Lot.qty, netted.lots.map Lot.price,
        multiplier * profit netted.closed⟩ := by
  have openEq : openLots (openEntries.map Prod.fst) (openEntries.map Prod.snd) =
      toOpenLots openEntries := by
    rw [openLots, lots_unzip, toOpenLots]
  rw [calcTradePnl_eq _ _ _ _ _ (by simp) (by simp) (openEq ▸ legal), openEq, lots_unzip]

/-- The kernel on the lots a netting left. -/
theorem calcTradePnl_book (book : List Trade) (newEntries : List (Int × ℚ)) (multiplier : ℚ)
    (legal : Legal book) :
    calcTradePnl (book.map Lot.qty) (book.map Lot.price)
        (newEntries.map Prod.fst) (newEntries.map Prod.snd) multiplier =
      let netted := netAll book (toLots newEntries)
      .ok ⟨netted.lots.map Lot.qty, netted.lots.map Lot.price,
        multiplier * profit netted.closed⟩ := by
  rw [calcTradePnl_eq _ _ _ _ _ (by simp) (by simp)
    (by rw [openLots_map_of_legal legal]; exact legal), openLots_map_of_legal legal, lots_unzip]

theorem calcBatches_book (multiplier : ℚ) (batches : List (List (Int × ℚ))) :
    ∀ (book : List Trade), Legal book →
      calcBatches multiplier (book.map Lot.qty) (book.map Lot.price) batches =
        let netted := netAll book (toLots batches.flatten)
        .ok ⟨netted.lots.map Lot.qty, netted.lots.map Lot.price,
          multiplier * profit netted.closed⟩ := by
  induction batches with
  | nil =>
      intro book _
      simp [calcBatches, toLots]
  | cons batch batches ih =>
      intro book legal
      have appended : toLots (batch :: batches).flatten =
          toLots batch ++ toLots batches.flatten := by
        simp [toLots]
      rw [calcBatches, calcTradePnl_book book batch multiplier legal]
      simp only [bind, Except.bind]
      rw [ih _ (netAll_legal book (toLots batch) legal), appended, netAll_append]
      simp only [profit_append, mul_add]

theorem calcBatches_pairs (multiplier : ℚ) (openEntries : List (Int × ℚ))
    (batch : List (Int × ℚ)) (batches : List (List (Int × ℚ)))
    (legal : Legal (toOpenLots openEntries)) :
    calcBatches multiplier (openEntries.map Prod.fst) (openEntries.map Prod.snd)
        (batch :: batches) =
      let netted := netAll (toOpenLots openEntries) (toLots (batch :: batches).flatten)
      .ok ⟨netted.lots.map Lot.qty, netted.lots.map Lot.price,
        multiplier * profit netted.closed⟩ := by
  have appended : toLots (batch :: batches).flatten = toLots batch ++ toLots batches.flatten := by
    simp [toLots]
  rw [calcBatches, calcTradePnl_pairs openEntries batch multiplier legal]
  simp only [bind, Except.bind]
  rw [calcBatches_book multiplier batches _ (netAll_legal _ (toLots batch) legal), appended,
    netAll_append]
  simp only [profit_append, mul_add]

/-- On open lots of one sign the kernel returns the textbook ledger's lots,
conserves the total quantity, realizes the profit of the matches, leaves a
legal input, and does not see how its trades are split into calls. -/
theorem calcTradePnl_is_fifo_ledger (openEntries newEntries : List (Int × ℚ)) (multiplier : ℚ)
    (oneSigned : OneSigned (openEntries.map Prod.fst)) :
    ∃ result : PnlResult,
      calcTradePnl (openEntries.map Prod.fst) (openEntries.map Prod.snd)
          (newEntries.map Prod.fst) (newEntries.map Prod.snd) multiplier = .ok result ∧
      result.openQtys = (netAll (toOpenLots openEntries) (toLots newEntries)).lots.map Lot.qty ∧
      result.openPrices = (netAll (toOpenLots openEntries) (toLots newEntries)).lots.map Lot.price ∧
      result.openQtys.sum = (openEntries.map Prod.fst).sum + (newEntries.map Prod.fst).sum ∧
      result.realized = multiplier *
        ((netAll (toOpenLots openEntries) (toLots newEntries)).closed.map fun m =>
          (m.lotQty : ℚ) * (m.closePrice - m.lotPrice)).sum ∧
      (∀ qty ∈ result.openQtys, qty ≠ 0) ∧ OneSigned result.openQtys ∧
      ∀ batches : List (List (Int × ℚ)), batches ≠ [] → batches.flatten = newEntries →
        calcBatches multiplier (openEntries.map Prod.fst) (openEntries.map Prod.snd) batches =
          .ok result := by
  have legal := legal_of_oneSigned oneSigned
  have legal' := netAll_legal _ (toLots newEntries) legal
  refine ⟨_, calcTradePnl_pairs openEntries newEntries multiplier legal, rfl, rfl, ?_, rfl, ?_,
    oneSigned_of_legal legal', ?_⟩
  · have conserved := netAll_total (toOpenLots openEntries) (toLots newEntries)
    rwa [total_toOpenLots, total_toLots] at conserved
  · intro qty member
    obtain ⟨lot, lotMember, rfl⟩ := List.mem_map.mp member
    obtain ⟨side, hs⟩ := legal'
    exact (hs lot lotMember).1
  · intro batches nonempty flat
    cases batches with
    | nil => exact absurd rfl nonempty
    | cons batch batches =>
        rw [calcBatches_pairs multiplier openEntries batch batches legal, flat]

/-- A lot list with a zero, a partial close, a sweep and a flip. -/
theorem calcTradePnl_is_fifo_ledger_flip :
    ∃ result : PnlResult,
      calcTradePnl [15, 0, 8] [6, 9, 5] [-20, 0, -5] [8, 4, 7] 100 = .ok result ∧
        result.openQtys = [-2] := by
  obtain ⟨result, runs, qtys, _⟩ := calcTradePnl_is_fifo_ledger
    [(15, 6), (0, 9), (8, 5)] [(-20, 8), (0, 4), (-5, 7)] 100 (Or.inl (by decide))
  exact ⟨result, runs, by rw [qtys]; decide +kernel⟩

end Gambit.KernelFifo
