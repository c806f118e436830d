import Gambit.Accounting.KernelFifo
import Gambit.Accounting.TradeReconciliation

/-!
# Round trips are the matches of first-in first-out netting

The stack of a symbol holds the lots of the textbook netting of the symbol's
trades so far, and the round trips made so far are its matches.  Whatever was
allocated before the call keeps its content.
-/

set_option autoImplicit false

namespace Gambit.TradeReconciliation

open FifoNetting ComputePnl ObjectHeap

variable {V : Type}

def lotOf (heap : Heap V) (trade : Nat) : Lot ℚ :=
  ⟨(heap.trades.read trade).qty, (heap.trades.read trade).price⟩

def commissionOf (heap : Heap V) (trade : Nat) : ℚ := (heap.trades.read trade).commission

def RoundTripTrade.asMatch (roundtrip : RoundTripTrade) : Match ℚ :=
  ⟨roundtrip.qty, roundtrip.entryPrice, roundtrip.exitPrice.getD 0⟩

/-- Entry and exit commission; an open round trip has no exit. -/
def RoundTripTrade.commission (roundtrip : RoundTripTrade) : ℚ :=
  roundtrip.entryCommission + roundtrip.exitCommission.getD 0

/-- Only quantities and commissions of `refs` change; namespaces are added. -/
structure Settles (before after : Heap V) (refs : List Nat) : Prop where
  elsewhere : ∀ ref ∉ refs, after.trades.read ref = before.trades.read ref
  fixed : ∀ ref, ∃ qty commission,
    after.trades.read ref = { before.trades.read ref with qty, commission }
  tradesNext : after.trades.next = before.trades.next
  namespaces : KeepsBelow before.namespaces.next before.namespaces after.namespaces

theorem Settles.refl (heap : Heap V) (refs : List Nat) : Settles heap heap refs where
  elsewhere := fun _ _ => rfl
  fixed := fun _ => ⟨_, _, rfl⟩
  tradesNext := rfl
  namespaces := KeepsBelow.refl _ _

theorem Settles.trans {a b c : Heap V} {refs : List Nat} (h : Settles a b refs)
    (h' : Settles b c refs) : Settles a c refs where
  elsewhere := fun ref outside => (h'.elsewhere ref outside).trans (h.elsewhere ref outside)
  fixed := fun ref => by
    obtain ⟨_, _, first⟩ := h.fixed ref
    obtain ⟨qty, commission, second⟩ := h'.fixed ref
    exact ⟨qty, commission, by rw [second, first]⟩
  tradesNext := h'.tradesNext.trans h.tradesNext
  namespaces := h.namespaces.trans (h'.namespaces.mono h.namespaces.grows)

theorem Settles.mono {a b : Heap V} {refs more : List Nat} (h : Settles a b refs)
    (subset : ∀ ref ∈ refs, ref ∈ more) : Settles a b more where
  elsewhere := fun ref outside => h.elsewhere ref fun inside => outside (subset ref inside)
  fixed := h.fixed
  tradesNext := h.tradesNext
  namespaces := h.namespaces

theorem Settles.contract {a b : Heap V} {refs : List Nat} (h : Settles a b refs) (ref : Nat) :
    (b.trades.read ref).contract = (a.trades.read ref).contract := by
  obtain ⟨_, _, same⟩ := h.fixed ref
  rw [same]

theorem Settles.price {a b : Heap V} {refs : List Nat} (h : Settles a b refs) (ref : Nat) :
    (b.trades.read ref).price = (a.trades.read ref).price := by
  obtain ⟨_, _, same⟩ := h.fixed ref
  rw [same]

theorem Settles.properties {a b : Heap V} {refs : List Nat} (h : Settles a b refs) (ref : Nat) :
    (b.trades.read ref).properties = (a.trades.read ref).properties := by
  obtain ⟨_, _, same⟩ := h.fixed ref
  rw [same]

theorem Settles.lotOf {a b : Heap V} {refs : List Nat} (h : Settles a b refs) {ref : Nat}
    (outside : ref ∉ refs) : lotOf b ref = lotOf a ref := by
  rw [TradeReconciliation.lotOf, h.elsewhere ref outside]
  rfl

theorem Settles.commissionOf {a b : Heap V} {refs : List Nat} (h : Settles a b refs) {ref : Nat}
    (outside : ref ∉ refs) : commissionOf b ref = commissionOf a ref := by
  rw [TradeReconciliation.commissionOf, h.elsewhere ref outside]
  rfl

theorem index_eq_of_read {a b : Heap V} {properties copied : Nat}
    (same : b.namespaces.read copied = a.namespaces.read properties) :
    b.index copied = a.index properties := by
  rw [Heap.index, same]
  rfl

/-- The namespace is allocated and has an index. -/
def Indexed (heap : Heap V) (properties index : Nat) : Prop :=
  properties < heap.namespaces.next ∧ heap.index properties = .ok index

theorem Indexed.settles {a b : Heap V} {refs : List Nat} {properties index : Nat}
    (h : Indexed a properties index) (settles : Settles a b refs) : Indexed b properties index :=
  ⟨h.1.trans_le settles.namespaces.grows,
    (index_eq_of_read (settles.namespaces.read properties h.1)).trans h.2⟩

/-- A closed round trip of `contract`, with a namespace of its own at or above `bound`. -/
structure Closed (bound : Nat) (heap : Heap V) (contract : Contract) (roundtrip : RoundTripTrade) :
    Prop where
  exitOrder : roundtrip.exitOrder.isSome
  exits : roundtrip.exitPrice.isSome ∧ roundtrip.exitCommission.isSome
  onContract : roundtrip.contract = contract
  netPnl : roundtrip.netPnl =
    roundtrip.qty * (roundtrip.exitPrice.getD 0 - roundtrip.entryPrice) * contract.multiplier -
      roundtrip.commission
  fresh : bound ≤ roundtrip.entryProperties
  indexed : ∃ index, Indexed heap roundtrip.entryProperties index

theorem Closed.settles {bound : Nat} {a b : Heap V} {refs : List Nat} {contract : Contract}
    {roundtrip : RoundTripTrade} (h : Closed bound a contract roundtrip)
    (settles : Settles a b refs) : Closed bound b contract roundtrip := by
  obtain ⟨index, indexed⟩ := h.indexed
  exact ⟨h.exitOrder, h.exits, h.onContract, h.netPnl, h.fresh, index, indexed.settles settles⟩

theorem Closed.weaken {bound lower : Nat} {heap : Heap V} {contract : Contract}
    {roundtrip : RoundTripTrade} (h : Closed bound heap contract roundtrip) (le : lower ≤ bound) :
    Closed lower heap contract roundtrip :=
  ⟨h.exitOrder, h.exits, h.onContract, h.netPnl, le.trans h.fresh, h.indexed⟩

/-! ## One call of `_net_trade` -/

variable (reasonCode : OrderId → String)

theorem netTrade_stacks {heap : Heap V} {stack : List Nat} {trade : Nat}
    (nothing : ∀ entry ∈ stack.head?,
      (heap.trades.read trade).qty.sign = (heap.trades.read entry).qty.sign) :
    netTrade reasonCode stack trade heap = .ok (none, stack ++ [trade], heap) := by
  cases stack with
  | nil => rfl
  | cons entry rest => rw [netTrade, if_pos (nothing entry rfl)]

/-- The signed quantity that an entry and an opposite exit have in common. -/
def common (entryQty exitQty : Int) : Int := min |entryQty| |exitQty| * entryQty.sign

theorem common_full {entryQty exitQty : Int} (covers : entryQty.natAbs ≤ exitQty.natAbs) :
    common entryQty exitQty = entryQty := by
  have smaller : |entryQty| ≤ |exitQty| := by
    rw [Int.abs_eq_natAbs, Int.abs_eq_natAbs]
    omega
  rw [common, min_eq_left smaller, mul_comm, Int.sign_mul_abs]

theorem common_part {entryQty exitQty : Int} (entryNonzero : entryQty ≠ 0) (exitNonzero : exitQty ≠ 0)
    (opposite : ¬ SameSide exitQty entryQty) (smaller : exitQty.natAbs < entryQty.natAbs) :
    common entryQty exitQty = -exitQty := by
  rw [sameSide_iff exitNonzero entryNonzero] at opposite
  have less : |exitQty| ≤ |entryQty| := by
    rw [Int.abs_eq_natAbs, Int.abs_eq_natAbs]
    omega
  rw [common, min_eq_right less]
  rcases lt_or_gt_of_ne entryNonzero with negative | positive
  · rw [Int.sign_eq_neg_one_of_neg negative, abs_of_nonneg (by omega)]
    ring
  · rw [Int.sign_eq_one_of_pos positive, abs_of_nonpos (by omega)]
    ring

section CloseOut

variable (heap : Heap V) {entry trade : Nat} (distinct : entry ≠ trade) (qty : Int) (f g : ℚ)

include distinct in
theorem closeOut_entry : (closeOut reasonCode entry trade qty f g heap).2.trades.read entry =
    { heap.trades.read entry with
      qty := (heap.trades.read entry).qty - qty
      commission := (heap.trades.read entry).commission * (1 - f) } := by
  simp only [closeOut, Heap.deepcopy]
  rw [modify_read _ distinct, modify_read_self]

include distinct in
theorem closeOut_exit : (closeOut reasonCode entry trade qty f g heap).2.trades.read trade =
    { heap.trades.read trade with
      qty := (heap.trades.read trade).qty + qty
      commission := (heap.trades.read trade).commission * (1 - g) } := by
  simp only [closeOut, Heap.deepcopy]
  rw [modify_read_self, modify_read _ (Ne.symm distinct)]

include distinct in
theorem closeOut_settles :
    Settles heap (closeOut reasonCode entry trade qty f g heap).2 [entry, trade] where
  elsewhere := by
    intro ref outside
    simp only [List.mem_cons, List.not_mem_nil, or_false, not_or] at outside
    simp only [closeOut, Heap.deepcopy]
    rw [modify_read _ outside.2, modify_read _ outside.1]
  fixed := by
    intro ref
    by_cases isEntry : ref = entry
    · subst isEntry
      exact ⟨_, _, closeOut_entry reasonCode heap distinct qty f g⟩
    · by_cases isExit : ref = trade
      · subst isExit
        exact ⟨_, _, closeOut_exit reasonCode heap distinct qty f g⟩
      · refine ⟨(heap.trades.read ref).qty, (heap.trades.read ref).commission, ?_⟩
        simp only [closeOut, Heap.deepcopy]
        rw [modify_read _ isExit, modify_read _ isEntry]
  tradesNext := rfl
  namespaces := (keepsBelow_alloc _ _).trans ((keepsBelow_alloc _ _).mono (Nat.le_succ _))

theorem closeOut_closed {contract : Contract} {index : Nat}
    (contractEq : (heap.trades.read entry).contract = contract)
    (indexed : Indexed heap (heap.trades.read entry).properties index) :
    Closed heap.namespaces.next (closeOut reasonCode entry trade qty f g heap).2 contract
      (closeOut reasonCode entry trade qty f g heap).1 where
  exitOrder := rfl
  exits := ⟨rfl, rfl⟩
  onContract := contractEq
  netPnl := by
    simp only [closeOut, Heap.deepcopy, RoundTripTrade.commission, contractEq, Option.getD_some]
    ring
  fresh := le_rfl
  indexed := by
    refine ⟨index, Nat.lt_succ_of_lt (Nat.lt_succ_self _), (index_eq_of_read ?_).trans indexed.2⟩
    simp only [closeOut, Heap.deepcopy]
    rw [alloc_address, alloc_read _ (by simp), alloc_read_new]

end CloseOut

/-- What a match leaves of the two trades, and its round trip. -/
theorem netTrade_matches {heap : Heap V} {entry trade : Nat} (rest : List Nat)
    {contract : Contract} {index : Nat} (distinct : entry ≠ trade)
    (contractEq : (heap.trades.read entry).contract = contract)
    (indexed : Indexed heap (heap.trades.read entry).properties index)
    (entryNonzero : (lotOf heap entry).qty ≠ 0) (exitNonzero : (lotOf heap trade).qty ≠ 0)
    (opposite : ¬ SameSide (lotOf heap trade).qty (lotOf heap entry).qty) {qty : Int}
    (qtyEq : common (lotOf heap entry).qty (lotOf heap trade).qty = qty) :
    ∃ roundtrip after,
      netTrade reasonCode (entry :: rest) trade heap =
        .ok (some roundtrip, if (lotOf heap entry).qty - qty = 0 then rest else entry :: rest,
          after) ∧
      Settles heap after [entry, trade] ∧
      lotOf after entry = ⟨(lotOf heap entry).qty - qty, (lotOf heap entry).price⟩ ∧
      lotOf after trade = ⟨(lotOf heap trade).qty + qty, (lotOf heap trade).price⟩ ∧
      roundtrip.asMatch = ⟨qty, (lotOf heap entry).price, (lotOf heap trade).price⟩ ∧
      Closed heap.namespaces.next after contract roundtrip ∧
      commissionOf after entry + commissionOf after trade + roundtrip.commission =
        commissionOf heap entry + commissionOf heap trade ∧
      ((lotOf after entry).qty = 0 → commissionOf after entry = 0) ∧
      ((lotOf after trade).qty = 0 → commissionOf after trade = 0) := by
  obtain ⟨f, fEq⟩ : ∃ f, |(qty : ℚ) / (heap.trades.read entry).qty| = f := ⟨_, rfl⟩
  obtain ⟨g, gEq⟩ : ∃ g, |(qty : ℚ) / (heap.trades.read trade).qty| = g := ⟨_, rfl⟩
  have entryFraction : absFraction qty (heap.trades.read entry).qty = .ok f :=
    fEq ▸ if_neg entryNonzero
  have exitFraction : absFraction qty (heap.trades.read trade).qty = .ok g :=
    gEq ▸ if_neg exitNonzero
  have atEntry := closeOut_entry reasonCode heap distinct qty f g
  have atExit := closeOut_exit reasonCode heap distinct qty f g
  have whole : ∀ other : Int, other ≠ 0 → other - qty = 0 ∨ other + qty = 0 →
      |(qty : ℚ) / (other : ℚ)| = 1 := by
    intro other nonzero used
    have castNonzero : (other : ℚ) ≠ 0 := Int.cast_ne_zero.mpr nonzero
    rcases used with used | used
    · rw [show qty = other by omega, div_self castNonzero, abs_one]
    · rw [show qty = -other by omega, Int.cast_neg, neg_div, abs_neg, div_self castNonzero, abs_one]
  refine ⟨(closeOut reasonCode entry trade qty f g heap).1,
    (closeOut reasonCode entry trade qty f g heap).2, ?_,
    closeOut_settles reasonCode heap distinct qty f g, ?_, ?_, ?_,
    closeOut_closed reasonCode heap qty f g contractEq indexed, ?_, ?_, ?_⟩
  · have differ : ¬ (heap.trades.read trade).qty.sign = (heap.trades.read entry).qty.sign := opposite
    have named : min |(heap.trades.read entry).qty| |(heap.trades.read trade).qty| *
        (heap.trades.read entry).qty.sign = qty := qtyEq
    simp only [netTrade, if_neg differ, named, entryFraction, exitFraction, bind, Except.bind]
    rfl
  · rw [lotOf, atEntry]
    rfl
  · rw [lotOf, atExit]
    rfl
  · rfl
  · rw [commissionOf, commissionOf, atEntry, atExit]
    simp only [closeOut, Heap.deepcopy, RoundTripTrade.commission, commissionOf, Option.getD_some]
    ring
  · intro used
    rw [lotOf, atEntry] at used
    rw [commissionOf, atEntry]
    have one : f = 1 := fEq.symm.trans (whole _ entryNonzero (Or.inl used))
    show _ * (1 - f) = (0 : ℚ)
    rw [one, sub_self, mul_zero]
  · intro used
    rw [lotOf, atExit] at used
    rw [commissionOf, atExit]
    have one : g = 1 := gEq.symm.trans (whole _ exitNonzero (Or.inr used))
    show _ * (1 - g) = (0 : ℚ)
    rw [one, sub_self, mul_zero]

/-! ## One trade against a stack -/

/-- A trade and a stack of other trades of one contract, whose lots make a legal book. -/
structure Ready (heap : Heap V) (contract : Contract) (stack : List Nat) (trade : Nat) : Prop where
  distinct : (stack ++ [trade]).Nodup
  contracts : ∀ ref ∈ stack, (heap.trades.read ref).contract = contract
  indexed : ∀ ref ∈ stack, ∃ index, Indexed heap (heap.trades.read ref).properties index
  nonzero : (lotOf heap trade).qty ≠ 0
  legal : Legal (stack.map (lotOf heap))

/-- The stack and the round trips are what netting the trade gives. -/
structure Netting (heap : Heap V) (contract : Contract) (stack : List Nat) (trade : Nat)
    (roundtrips : List RoundTripTrade) (left : List Nat) (after : Heap V) : Prop where
  settles : Settles heap after (stack ++ [trade])
  kept : left.Sublist (stack ++ [trade])
  lots : left.map (lotOf after) =
    (net (lotOf heap trade).price (lotOf heap trade).qty (stack.map (lotOf heap))).lots
  closed : roundtrips.map RoundTripTrade.asMatch =
    (net (lotOf heap trade).price (lotOf heap trade).qty (stack.map (lotOf heap))).closed
  commission : (left.map (commissionOf after)).sum +
      (roundtrips.map RoundTripTrade.commission).sum =
    (stack.map (commissionOf heap)).sum + commissionOf heap trade
  roundtrips : ∀ roundtrip ∈ roundtrips, Closed heap.namespaces.next after contract roundtrip

theorem Settles.map_lotOf {a b : Heap V} {refs others : List Nat} (h : Settles a b refs)
    (apart : ∀ ref ∈ others, ref ∉ refs) :
    others.map (TradeReconciliation.lotOf b) = others.map (TradeReconciliation.lotOf a) :=
  List.map_congr_left fun ref member => h.lotOf (apart ref member)

theorem Settles.map_commissionOf {a b : Heap V} {refs others : List Nat} (h : Settles a b refs)
    (apart : ∀ ref ∈ others, ref ∉ refs) :
    others.map (TradeReconciliation.commissionOf b) =
      others.map (TradeReconciliation.commissionOf a) :=
  List.map_congr_left fun ref member => h.commissionOf (apart ref member)

/-- The loop nets the trade and stops. -/
theorem netUntilDone_nets (fuel : Nat) : ∀ (stack : List Nat) (trade : Nat) (heap : Heap V)
    (contract : Contract), stack.length < fuel → Ready heap contract stack trade →
      ∃ roundtrips left after,
        netUntilDone reasonCode fuel stack trade heap = .ok (roundtrips, left, after) ∧
        Netting heap contract stack trade roundtrips left after := by
  induction fuel with
  | zero => intro _ _ _ _ enough; omega
  | succ fuel ih =>
      intro stack trade heap contract enough ready
      have stacked : ∀ (nothing : ∀ entry ∈ stack.head?,
            (heap.trades.read trade).qty.sign = (heap.trades.read entry).qty.sign),
          net (lotOf heap trade).price (lotOf heap trade).qty (stack.map (lotOf heap)) =
            ⟨stack.map (lotOf heap) ++ [lotOf heap trade], []⟩ →
          ∃ roundtrips left after,
            netUntilDone reasonCode (fuel + 1) stack trade heap = .ok (roundtrips, left, after) ∧
            Netting heap contract stack trade roundtrips left after := by
        intro nothing nets
        refine ⟨[], stack ++ [trade], heap, ?_, Settles.refl _ _, List.Sublist.refl _, ?_, ?_, ?_, ?_⟩
        · rw [netUntilDone, netTrade_stacks reasonCode nothing]
          rfl
        · rw [nets, List.map_append]
          rfl
        · rw [nets]
          rfl
        · simp
        · intro roundtrip member
          cases member
      cases stack with
      | nil =>
          refine stacked (by simp) ?_
          rw [List.map_nil, net_nil _ ready.nonzero]
          rfl
      | cons entry rest =>
          rw [List.length_cons] at enough
          obtain ⟨side, onSide⟩ := ready.legal
          rw [List.map_cons] at onSide
          obtain ⟨⟨entryNonzero, _⟩, restSide⟩ := onSide_cons.mp onSide
          by_cases same : SameSide (lotOf heap trade).qty (lotOf heap entry).qty
          · refine stacked (by rintro _ ⟨⟩; exact same) ?_
            rw [List.map_cons, net_sameSide _ _ ready.nonzero same]
          · have distinct := ready.distinct
            rw [List.cons_append, List.nodup_cons] at distinct
            obtain ⟨entryApart, restDistinct⟩ := distinct
            rw [List.mem_append, List.mem_singleton, not_or] at entryApart
            have tradeApart : trade ∉ rest := by
              have := (List.nodup_append.mp restDistinct).2.2
              exact fun member => this trade member trade (List.mem_singleton_self _) rfl
            have restApart : ∀ ref ∈ rest, ref ∉ [entry, trade] := by
              intro ref member
              simp only [List.mem_cons, List.not_mem_nil, or_false, not_or]
              exact ⟨fun h => entryApart.1 (h ▸ member), fun h => tradeApart (h ▸ member)⟩
            obtain ⟨index, indexed⟩ := ready.indexed entry (List.mem_cons_self ..)
            have contractEq := ready.contracts entry (List.mem_cons_self ..)
            obtain ⟨roundtrip, after, runs, settles, atEntry, atTrade, matched, closed, conserved,
              entrySpent, tradeSpent⟩ := netTrade_matches reasonCode rest entryApart.2 contractEq indexed entryNonzero ready.nonzero same rfl
            have restLots := settles.map_lotOf restApart
            have restCommission := settles.map_commissionOf restApart
            have settlesAll : Settles heap after (entry :: rest ++ [trade]) :=
              settles.mono (by simp)
            rw [netUntilDone, runs]
            simp only [bind, Except.bind]
            by_cases smaller : (lotOf heap trade).qty.natAbs < (lotOf heap entry).qty.natAbs
            · -- the entry stays on the stack with less
              rw [common_part entryNonzero ready.nonzero same smaller] at atEntry atTrade matched ⊢
              have spent : (after.trades.read trade).qty = 0 :=
                (congrArg Lot.qty atTrade).trans (by simp)
              have remains : ¬ (lotOf heap entry).qty - -(lotOf heap trade).qty = 0 := by omega
              rw [if_neg remains, if_pos spent]
              refine ⟨[roundtrip], entry :: rest, after, rfl, settlesAll, by simp, ?_, ?_, ?_, ?_⟩
              · rw [List.map_cons, List.map_cons, net_part _ _ ready.nonzero same smaller, restLots,
                  atEntry, sub_neg_eq_add]
              · rw [List.map_cons, List.map_cons, net_part _ _ ready.nonzero same smaller, matched]
                rfl
              · have gone := tradeSpent spent
                simp only [List.map_cons, List.map_nil, List.sum_cons, List.sum_nil, restCommission]
                linarith
              · intro made member
                rw [List.mem_singleton.mp member]
                exact closed
            · -- the entry is closed; what is left of the trade meets the next one
              have covers := Nat.not_lt.mp smaller
              rw [common_full covers] at atEntry atTrade matched ⊢
              have gone := entrySpent ((congrArg Lot.qty atEntry).trans (by simp))
              rw [if_pos (sub_self _)]
              by_cases used : (after.trades.read trade).qty = 0
              · have exactly : (lotOf heap trade).qty + (lotOf heap entry).qty = 0 :=
                  (congrArg Lot.qty atTrade).symm.trans used
                have nets : net (lotOf heap trade).price (lotOf heap trade).qty
                    ((entry :: rest).map (lotOf heap)) =
                      ⟨rest.map (lotOf heap),
                        [⟨(lotOf heap entry).qty, (lotOf heap entry).price,
                          (lotOf heap trade).price⟩]⟩ := by
                  rw [List.map_cons, net_full _ _ ready.nonzero same covers, exactly, net_zero]
                have tradeGone := tradeSpent used
                rw [if_pos used]
                refine ⟨[roundtrip], rest, after, rfl, settlesAll, ?_, ?_, ?_, ?_, ?_⟩
                · exact (List.sublist_append_left _ _).trans (List.sublist_cons_self _ _)
                · rw [nets, restLots]
                · rw [nets, List.map_cons, matched]
                  rfl
                · simp only [List.map_cons, List.map_nil, List.sum_cons, List.sum_nil,
                    restCommission]
                  linarith
                · intro made member
                  rw [List.mem_singleton.mp member]
                  exact closed
              · have ready' : Ready after contract rest trade := by
                  refine ⟨restDistinct, ?_, ?_, used, ?_⟩
                  · intro ref member
                    rw [settles.contract]
                    exact ready.contracts ref (List.mem_cons_of_mem _ member)
                  · intro ref member
                    obtain ⟨index, indexed⟩ := ready.indexed ref (List.mem_cons_of_mem _ member)
                    rw [settles.properties]
                    exact ⟨index, indexed.settles settles⟩
                  · rw [restLots]
                    exact ⟨side, restSide⟩
                obtain ⟨more, left, final, continues, netting⟩ :=
                  ih rest trade after contract (by omega) ready'
                have nets : net (lotOf heap trade).price (lotOf heap trade).qty
                    ((entry :: rest).map (lotOf heap)) =
                      ⟨(net (lotOf after trade).price (lotOf after trade).qty
                          (rest.map (lotOf after))).lots,
                        ⟨(lotOf heap entry).qty, (lotOf heap entry).price,
                          (lotOf heap trade).price⟩ ::
                            (net (lotOf after trade).price (lotOf after trade).qty
                              (rest.map (lotOf after))).closed⟩ := by
                  rw [List.map_cons, net_full _ _ ready.nonzero same covers, atTrade, restLots]
                rw [if_neg used, continues]
                refine ⟨roundtrip :: more, left, final, rfl, ?_, ?_, ?_, ?_, ?_, ?_⟩
                · exact settlesAll.trans (netting.settles.mono fun ref member =>
                    List.mem_cons_of_mem _ member)
                · exact netting.kept.trans (List.sublist_cons_self _ _)
                · rw [nets, netting.lots]
                · rw [nets, List.map_cons, matched, netting.closed]
                · have rest' := netting.commission
                  simp only [List.map_cons, List.sum_cons, restCommission] at rest' ⊢
                  linarith
                · intro made member
                  rcases List.mem_cons.mp member with rfl | member
                  · exact closed.settles netting.settles
                  · exact (netting.roundtrips made member).weaken settles.namespaces.grows

/-! ## All trades -/

/-- The trades in `refs` on `symbol`. -/
def onSymbol (heap : Heap V) (symbol : String) (refs : List Nat) : List Nat :=
  refs.filter fun ref => (heap.trades.read ref).contract.symbol = symbol

/-- The working trades `done` are reconciled; `start` is the heap before the first. -/
structure NettedSoFar (start : Heap V) (done : List Nat) (progress : Progress V) : Prop where
  settles : Settles start progress.heap done
  kept : ∀ symbol, (progress.openStacks.listAt symbol).Sublist (onSymbol start symbol done)
  lots : ∀ symbol, (progress.openStacks.listAt symbol).map (lotOf progress.heap) =
    (netAll [] ((onSymbol start symbol done).map (lotOf start))).lots
  closed : ∀ symbol,
    (progress.reconciled.filter fun made => made.contract.symbol = symbol).map
        RoundTripTrade.asMatch =
      (netAll [] ((onSymbol start symbol done).map (lotOf start))).closed
  commission : ∀ symbol,
    ((progress.openStacks.listAt symbol).map (commissionOf progress.heap)).sum +
        ((progress.reconciled.filter fun made => made.contract.symbol = symbol).map
          RoundTripTrade.commission).sum =
      ((onSymbol start symbol done).map (commissionOf start)).sum
  roundtrips : ∀ made ∈ progress.reconciled, ∃ ref ∈ done,
    Closed start.namespaces.next progress.heap (start.trades.read ref).contract made

/-- Working trades: distinct, whole, indexed, and of one contract per symbol. -/
structure Working (heap : Heap V) (refs : List Nat) : Prop where
  distinct : refs.Nodup
  nonzero : ∀ ref ∈ refs, (lotOf heap ref).qty ≠ 0
  indexed : ∀ ref ∈ refs, ∃ index, Indexed heap (heap.trades.read ref).properties index
  oneContract : ∀ ref ∈ refs, ∀ other ∈ refs,
    (heap.trades.read ref).contract.symbol = (heap.trades.read other).contract.symbol →
      (heap.trades.read ref).contract = (heap.trades.read other).contract

theorem onSymbol_snoc (heap : Heap V) (symbol : String) (refs : List Nat) (ref : Nat) :
    onSymbol heap symbol (refs ++ [ref]) = onSymbol heap symbol refs ++
      if (heap.trades.read ref).contract.symbol = symbol then [ref] else [] := by
  simp only [onSymbol, List.filter_append, List.filter_cons, List.filter_nil, decide_eq_true_eq]

theorem mem_onSymbol {heap : Heap V} {symbol : String} {refs : List Nat} {ref : Nat} :
    ref ∈ onSymbol heap symbol refs ↔
      ref ∈ refs ∧ (heap.trades.read ref).contract.symbol = symbol := by
  simp [onSymbol]

theorem nettedSoFar_start (start : Heap V) : NettedSoFar start [] ⟨.empty, [], start⟩ where
  settles := Settles.refl _ _
  kept := fun _ => List.Sublist.refl _
  lots := fun _ => rfl
  closed := fun _ => rfl
  commission := fun _ => by simp [onSymbol, OrderedDict.listAt]
  roundtrips := fun made member => by cases member

/-- The next trade finds its symbol's stack ready. -/
theorem NettedSoFar.ready {start : Heap V} {refs done : List Nat} {trade : Nat}
    {progress : Progress V} (h : NettedSoFar start done progress) (working : Working start refs)
    (next : done ++ [trade] <+: refs) :
    Ready progress.heap (start.trades.read trade).contract
      (progress.openStacks.listAt (start.trades.read trade).contract.symbol) trade := by
  have distinct : (done ++ [trade]).Nodup := working.distinct.sublist next.sublist
  have tradeApart : trade ∉ done := by
    intro member
    exact (List.nodup_append.mp distinct).2.2 trade member trade (List.mem_singleton_self _) rfl
  have listed : ∀ ref ∈ progress.openStacks.listAt (start.trades.read trade).contract.symbol,
      ref ∈ done ∧ (start.trades.read ref).contract.symbol =
        (start.trades.read trade).contract.symbol := fun ref member =>
    mem_onSymbol.mp ((h.kept _).subset member)
  have inRefs : ∀ ref ∈ done ++ [trade], ref ∈ refs := fun ref member => next.subset member
  have tradeIn := inRefs trade (by simp)
  constructor
  · refine List.nodup_append.mpr ⟨?_, List.nodup_singleton _, ?_⟩
    · refine List.Nodup.sublist (h.kept _) ?_
      exact ((List.nodup_append.mp distinct).1).sublist List.filter_sublist
    · intro ref member other otherMember same
      rw [List.mem_singleton] at otherMember
      exact tradeApart (otherMember ▸ same ▸ (listed ref member).1)
  · intro ref member
    obtain ⟨isDone, sameSymbol⟩ := listed ref member
    rw [h.settles.contract]
    exact working.oneContract ref (inRefs ref (List.mem_append_left _ isDone)) trade tradeIn
      sameSymbol
  · intro ref member
    obtain ⟨isDone, _⟩ := listed ref member
    obtain ⟨index, indexed⟩ := working.indexed ref (inRefs ref (List.mem_append_left _ isDone))
    rw [h.settles.properties]
    exact ⟨index, indexed.settles h.settles⟩
  · rw [h.settles.lotOf tradeApart]
    exact working.nonzero trade tradeIn
  · rw [h.lots]
    exact netAll_legal _ _ legal_nil

/-- One more trade is reconciled. -/
theorem takeTrade_reconciles {start : Heap V} {refs done : List Nat} {trade fuel : Nat}
    {progress : Progress V} (h : NettedSoFar start done progress) (working : Working start refs)
    (next : done ++ [trade] <+: refs) (enough : refs.length < fuel) :
    ∃ progress', takeTrade reasonCode fuel progress trade = .ok progress' ∧
      NettedSoFar start (done ++ [trade]) progress' := by
  have ready := h.ready working next
  have distinct : (done ++ [trade]).Nodup := working.distinct.sublist next.sublist
  have tradeApart : trade ∉ done := by
    intro member
    exact (List.nodup_append.mp distinct).2.2 trade member trade (List.mem_singleton_self _) rfl
  obtain ⟨symbol, symbolEq⟩ : ∃ symbol, (start.trades.read trade).contract.symbol = symbol :=
    ⟨_, rfl⟩
  have shorter : (progress.openStacks.listAt symbol).length < fuel := by
    have stackShort := ((h.kept symbol).trans List.filter_sublist).length_le
    have doneShort := next.length_le
    rw [List.length_append, List.length_singleton] at doneShort
    omega
  rw [symbolEq] at ready
  obtain ⟨roundtrips, left, after, runs, netting⟩ :=
    netUntilDone_nets reasonCode fuel _ trade progress.heap _ shorter ready
  have symbolNow : (progress.heap.trades.read trade).contract.symbol = symbol := by
    rw [h.settles.contract, symbolEq]
  have stackDone : ∀ other, ∀ ref ∈ progress.openStacks.listAt other,
      ref ∈ done ∧ (start.trades.read ref).contract.symbol = other := fun other ref member =>
    mem_onSymbol.mp ((h.kept other).subset member)
  have otherApart : ∀ other, other ≠ symbol → ∀ ref ∈ progress.openStacks.listAt other,
      ref ∉ progress.openStacks.listAt symbol ++ [trade] := by
    intro other differs ref member inside
    obtain ⟨isDone, onOther⟩ := stackDone other ref member
    rcases List.mem_append.mp inside with onStack | isTrade
    · exact differs (onOther.symm.trans (stackDone symbol ref onStack).2)
    · exact tradeApart (List.mem_singleton.mp isTrade ▸ isDone)
  have madeSymbol : ∀ made ∈ roundtrips, made.contract.symbol = symbol := fun made member => by
    rw [(netting.roundtrips made member).onContract, symbolEq]
  have lotsNow : lotOf progress.heap trade = lotOf start trade := h.settles.lotOf tradeApart
  have settlesAll : Settles start after (done ++ [trade]) := by
    refine (h.settles.mono fun ref member => List.mem_append_left _ member).trans
      (netting.settles.mono fun ref member => ?_)
    rcases List.mem_append.mp member with onStack | isTrade
    · exact List.mem_append_left _ (stackDone symbol ref onStack).1
    · exact List.mem_append_right _ isTrade
  refine ⟨⟨progress.openStacks.set symbol left, progress.reconciled ++ roundtrips, after⟩, ?_,
    settlesAll, ?_, ?_, ?_, ?_, ?_⟩
  · rw [takeTrade]
    simp only [symbolNow, runs, bind, Except.bind]
  · intro other
    rw [OrderedDict.listAt_set, onSymbol_snoc, symbolEq]
    by_cases same : other = symbol
    · rw [if_pos same, if_pos same.symm, same]
      exact netting.kept.trans ((h.kept symbol).append (List.Sublist.refl _))
    · rw [if_neg same, if_neg (Ne.symm same), List.append_nil]
      exact h.kept other
  · intro other
    rw [OrderedDict.listAt_set, onSymbol_snoc, symbolEq]
    by_cases same : other = symbol
    · subst same
      rw [if_pos rfl, if_pos rfl, netting.lots, h.lots, lotsNow, List.map_append, netAll_append]
      rfl
    · rw [if_neg same, if_neg (Ne.symm same), List.append_nil, ← h.lots]
      exact netting.settles.map_lotOf (otherApart other same)
  · intro other
    rw [onSymbol_snoc, symbolEq, List.filter_append, List.map_append, h.closed]
    by_cases same : other = symbol
    · subst same
      have all : (roundtrips.filter fun made => made.contract.symbol = other) = roundtrips :=
        List.filter_eq_self.mpr fun made member => by simpa using madeSymbol made member
      rw [all, netting.closed, h.lots, lotsNow, if_pos rfl, List.map_append, netAll_append]
      simp [netAll_cons]
    · have none_ : (roundtrips.filter fun made => made.contract.symbol = other) = [] :=
        List.filter_eq_nil_iff.mpr fun made member => by
          rw [madeSymbol made member]
          simpa using Ne.symm same
      rw [none_, if_neg (Ne.symm same), List.append_nil, List.map_nil, List.append_nil]
  · intro other
    rw [OrderedDict.listAt_set, onSymbol_snoc, symbolEq, List.filter_append, List.map_append,
      List.sum_append]
    have before := h.commission other
    by_cases same : other = symbol
    · subst same
      have all : (roundtrips.filter fun made => made.contract.symbol = other) = roundtrips :=
        List.filter_eq_self.mpr fun made member => by simpa using madeSymbol made member
      have moved := netting.commission
      rw [h.settles.commissionOf tradeApart] at moved
      rw [all, if_pos rfl, if_pos rfl, List.map_append, List.sum_append, ← before]
      simp only [List.map_cons, List.map_nil, List.sum_cons, List.sum_nil]
      linarith
    · have none_ : (roundtrips.filter fun made => made.contract.symbol = other) = [] :=
        List.filter_eq_nil_iff.mpr fun made member => by
          rw [madeSymbol made member]
          simpa using Ne.symm same
      rw [none_, if_neg same, if_neg (Ne.symm same), List.append_nil, ← before,
        netting.settles.map_commissionOf (otherApart other same)]
      simp
  · intro made member
    rcases List.mem_append.mp member with member | member
    · obtain ⟨ref, isDone, closed⟩ := h.roundtrips made member
      exact ⟨ref, List.mem_append_left _ isDone, closed.settles netting.settles⟩
    · exact ⟨trade, by simp, (netting.roundtrips made member).weaken h.settles.namespaces.grows⟩

theorem foldlM_takeTrade {start : Heap V} {refs : List Nat} {fuel : Nat}
    (working : Working start refs) (enough : refs.length < fuel) :
    ∃ progress, refs.foldlM (takeTrade reasonCode fuel) ⟨.empty, [], start⟩ = .ok progress ∧
      NettedSoFar start refs progress := by
  have runs : Raising.Yields (NettedSoFar start refs) (fun _ : Exn => False)
      (refs.foldlM (takeTrade reasonCode fuel) ⟨.empty, [], start⟩) := by
    refine Raising.Yields.foldlM_done (fun done trade progress next now => ?_)
      (nettedSoFar_start start)
    obtain ⟨progress', steps, reconciled⟩ := takeTrade_reconciles reasonCode now working next enough
    rw [steps]
    exact reconciled
  cases result : refs.foldlM (takeTrade reasonCode fuel) ⟨.empty, [], start⟩ with
  | error exn => exact absurd (runs.of_error result) id
  | ok progress => exact ⟨progress, rfl, runs.of_ok result⟩

end Gambit.TradeReconciliation
