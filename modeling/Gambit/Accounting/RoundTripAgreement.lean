import Gambit.Accounting.Reconciliation
import Gambit.Accounting.RoundTrips

/-!
# Round trips agree with the kernel

The working copies stand behind everything the caller holds, so the call
leaves the source trades alone.  Sorting by entry index keeps the open round
trips of a contract in the order of its stack.
-/

set_option autoImplicit false

namespace Gambit.TradeReconciliation

open FifoNetting ComputePnl KernelFifo ObjectHeap

variable {V : Type}

/-! ## Copying -/

/-- The copies of `sources` stand at the end of the heap, indexed from `index` on. -/
structure Copied (before : Heap V) (index : Nat) (sources working : List Nat) (after : Heap V) :
    Prop where
  trades : KeepsBelow before.trades.next before.trades after.trades
  namespaces : KeepsBelow before.namespaces.next before.namespaces after.namespaces
  refs : working = List.range' before.trades.next sources.length
  booked : working.map (fun ref => (after.trades.read ref).toBookedTrade) =
    sources.map fun ref => (before.trades.read ref).toBookedTrade
  indexed : ∀ i < sources.length,
    Indexed after (after.trades.read (before.trades.next + i)).properties (index + i)
  fresh : ∀ ref ∈ working, before.namespaces.next ≤ (after.trades.read ref).properties

theorem copyTrades_copied (sources : List Nat) : ∀ (index : Nat) (before : Heap V),
    (∀ ref ∈ sources, ref < before.trades.next) →
      Copied before index sources (copyTrades index sources before).1
        (copyTrades index sources before).2 := by
  induction sources with
  | nil =>
      intro index before _
      refine ⟨KeepsBelow.refl _ _, KeepsBelow.refl _ _, rfl, rfl, ?_, ?_⟩
      · intro i inside
        simp at inside
      · intro ref member
        cases member
  | cons source sources ih =>
      intro index before alive
      obtain ⟨made, madeEq⟩ : ∃ made : Heap V, made = ⟨
          (before.trades.alloc { before.trades.read source with
            properties := before.namespaces.next }).2,
          ((before.namespaces.alloc (before.namespaces.read
              (before.trades.read source).properties)).2.modify before.namespaces.next fun held =>
            held.set "index" (.whole index))⟩ := ⟨_, rfl⟩
      have unfolded : copyTrades index (source :: sources) before =
          (before.trades.next :: (copyTrades (index + 1) sources made).1,
            (copyTrades (index + 1) sources made).2) := by
        rw [madeEq]
        rfl
      have tradesNext : made.trades.next = before.trades.next + 1 := by rw [madeEq]; rfl
      have namespacesNext : made.namespaces.next = before.namespaces.next + 1 := by
        rw [madeEq]
        rfl
      have tradesKept : KeepsBelow before.trades.next before.trades made.trades := by
        rw [madeEq]
        exact keepsBelow_alloc _ _
      have namespacesKept : KeepsBelow before.namespaces.next before.namespaces made.namespaces := by
        rw [madeEq]
        dsimp only
        exact (keepsBelow_alloc _ _).trans (keepsBelow_modify _ le_rfl)
      have aliveMade : ∀ ref ∈ sources, ref < made.trades.next := by
        intro ref member
        have := alive ref (List.mem_cons_of_mem _ member)
        omega
      have rest := ih (index + 1) made aliveMade
      have newTrade : (copyTrades (index + 1) sources made).2.trades.read before.trades.next =
          { before.trades.read source with properties := before.namespaces.next } := by
        rw [rest.trades.read _ (by omega), madeEq]
        exact alloc_read_new _ _
      have newIndexed : Indexed (copyTrades (index + 1) sources made).2 before.namespaces.next
          index := by
        constructor
        · have := rest.namespaces.grows
          omega
        · rw [index_eq_of_read (rest.namespaces.read _ (by omega)), Heap.index, madeEq]
          simp
      rw [unfolded]
      constructor
      · exact tradesKept.trans (rest.trades.mono (by omega))
      · exact namespacesKept.trans (rest.namespaces.mono (by omega))
      · rw [rest.refs, tradesNext]
        rfl
      · rw [List.map_cons, List.map_cons, newTrade, rest.booked]
        refine congrArg _ (List.map_congr_left fun ref member => ?_)
        rw [tradesKept.read ref (alive ref (List.mem_cons_of_mem _ member))]
      · intro i inside
        cases i with
        | zero =>
            simp only [Nat.add_zero]
            rw [newTrade]
            exact newIndexed
        | succ i =>
            have indexed := rest.indexed i (by simpa using inside)
            rw [tradesNext] at indexed
            dsimp only
            rwa [show before.trades.next + (i + 1) = before.trades.next + 1 + i by omega,
              show index + (i + 1) = index + 1 + i by omega]
      · intro ref member
        rcases List.mem_cons.mp member with rfl | member
        · rw [newTrade]
        · have := rest.fresh ref member
          dsimp only
          omega

/-! ## The trades left open -/

structure Opens (heap : Heap V) (ref : Nat) (made : RoundTripTrade) : Prop where
  isOpen : made.exitOrder = none
  noExit : made.exitPrice = none ∧ made.exitCommission = none
  contract : made.contract = (heap.trades.read ref).contract
  lot : (⟨made.qty, made.entryPrice⟩ : Lot ℚ) = lotOf heap ref
  commission : made.commission = commissionOf heap ref
  properties : made.entryProperties = (heap.trades.read ref).properties
  netPnl : made.netPnl = 0

variable (reasonCode : OrderId → String)

theorem openRoundTrips_opens (refs : List Nat) : ∀ (heap : Heap V),
    List.Forall₂ (Opens heap) refs (openRoundTrips reasonCode refs heap).1 ∧
      (openRoundTrips reasonCode refs heap).2.trades = heap.trades ∧
      KeepsBelow heap.namespaces.next heap.namespaces
        (openRoundTrips reasonCode refs heap).2.namespaces := by
  induction refs with
  | nil => exact fun heap => ⟨List.Forall₂.nil, rfl, KeepsBelow.refl _ _⟩
  | cons ref refs ih =>
      intro heap
      obtain ⟨opens, trades, namespaces⟩ :=
        ih { heap with namespaces := (heap.namespaces.alloc .empty).2 }
      refine ⟨List.Forall₂.cons ⟨rfl, ⟨rfl, rfl⟩, rfl, rfl, add_zero _, rfl, rfl⟩ ?_, trades, ?_⟩
      · exact opens.imp fun _ _ h =>
          ⟨h.isOpen, h.noExit, h.contract, h.lot, h.commission, h.properties, h.netPnl⟩
      · exact (keepsBelow_alloc _ _).trans (namespaces.mono (Nat.le_succ _))

/-- Related lists, filtered alike and read alike. -/
theorem filter_map_eq_of_forall₂ {α β γ : Type} {R : α → β → Prop} {p : α → Bool} {q : β → Bool}
    {f : α → γ} {g : β → γ} {xs : List α} {ys : List β} (related : List.Forall₂ R xs ys)
    (alike : ∀ x y, R x y → p x = q y ∧ f x = g y) :
    (ys.filter q).map g = (xs.filter p).map f := by
  induction related with
  | nil => rfl
  | @cons x y xs ys head _ ih =>
      obtain ⟨same, read⟩ := alike x y head
      by_cases kept : p x = true
      · rw [List.filter_cons_of_pos (same ▸ kept), List.filter_cons_of_pos kept, List.map_cons,
          List.map_cons, ih, read]
      · rw [List.filter_cons_of_neg (same ▸ kept), List.filter_cons_of_neg kept, ih]

/-! ## Sorting and renumbering -/

/-- The key of the sort, where there is one. -/
def entryIndex (heap : Heap V) (made : RoundTripTrade) : Nat :=
  (heap.index made.entryProperties).toOption.getD 0

theorem sortByIndex_eq {heap : Heap V} {made : List RoundTripTrade}
    (indexed : ∀ one ∈ made, ∃ index, heap.index one.entryProperties = .ok index) :
    sortByIndex heap made =
      .ok (made.insertionSort fun a b => entryIndex heap a ≤ entryIndex heap b) := by
  have keyed : (made.mapM fun one => do
      .ok (← heap.index one.entryProperties, one) : Except Exn (List (Nat × RoundTripTrade))) =
        .ok (made.map fun one => (entryIndex heap one, one)) := by
    induction made with
    | nil => rfl
    | cons one made ih =>
        obtain ⟨index, found⟩ := indexed one (List.mem_cons_self ..)
        have rest := ih fun other member => indexed other (List.mem_cons_of_mem _ member)
        rw [List.mapM_cons, rest, found, List.map_cons]
        simp only [entryIndex, found]
        rfl
  have sorted : (made.insertionSort fun a b => entryIndex heap a ≤ entryIndex heap b).map
        (fun one => (entryIndex heap one, one)) =
      (made.map fun one => (entryIndex heap one, one)).insertionSort fun a b => a.1 ≤ b.1 :=
    List.map_insertionSort _ _ _ _ fun _ _ _ _ => Iff.rfl
  rw [sortByIndex, keyed]
  simp only [bind, Except.bind]
  rw [← sorted, List.map_map]
  simp [Function.comp_def]

theorem keepsBelow_setAttribute {heap : Heap V} {properties bound : Nat} (name : String)
    (value : Attribute V) (above : bound ≤ properties) :
    KeepsBelow bound heap.namespaces (heap.setAttribute properties name value).namespaces := by
  dsimp only [Heap.setAttribute]
  exact keepsBelow_modify _ above

theorem index_setAttribute {heap : Heap V} {properties other index value : Nat} {name : String}
    (named : name = "index" ∨ name = "entry_index") (found : heap.index other = .ok index) :
    ∃ index', (heap.setAttribute properties name (.whole value)).index other = .ok index' := by
  by_cases same : other = properties
  · subst same
    rcases named with rfl | rfl
    · exact ⟨value, by simp [Heap.index, Heap.setAttribute]⟩
    · refine ⟨index, ?_⟩
      rw [← found]
      simp [Heap.index, Heap.setAttribute, OrderedDict.get?_set]
  · refine ⟨index, ?_⟩
    rw [← found]
    refine index_eq_of_read ?_
    dsimp only [Heap.setAttribute]
    exact modify_read _ same

theorem renumber_runs (bound : Nat) (made : List RoundTripTrade) : ∀ (index : Nat) (heap : Heap V),
    (∀ one ∈ made, bound ≤ one.entryProperties ∧
      ∃ found, heap.index one.entryProperties = .ok found) →
    ∃ after, renumber index made heap = .ok after ∧ after.trades = heap.trades ∧
      KeepsBelow bound heap.namespaces after.namespaces := by
  induction made with
  | nil => exact fun index heap _ => ⟨heap, rfl, rfl, KeepsBelow.refl _ _⟩
  | cons one made ih =>
      intro index heap indexed
      obtain ⟨above, found, read⟩ := indexed one (List.mem_cons_self ..)
      obtain ⟨after, runs, trades, namespaces⟩ := ih (index + 1)
        ((heap.setAttribute one.entryProperties "entry_index" (.whole found)).setAttribute
          one.entryProperties "index" (.whole index)) (by
            intro other member
            obtain ⟨aboveOther, foundOther, readOther⟩ :=
              indexed other (List.mem_cons_of_mem _ member)
            obtain ⟨_, once⟩ := index_setAttribute (Or.inr rfl) readOther
            exact ⟨aboveOther, index_setAttribute (Or.inl rfl) once⟩)
      refine ⟨after, ?_, trades, ?_⟩
      · rw [renumber, read]
        exact runs
      · exact ((keepsBelow_setAttribute _ _ above).trans (keepsBelow_setAttribute _ _ above)).trans
          namespaces

/-! ## The whole call -/

def RoundTripTrade.isClosed (made : RoundTripTrade) : Bool := made.exitOrder.isSome

def RoundTripTrade.entryLot (made : RoundTripTrade) : Lot ℚ := ⟨made.qty, made.entryPrice⟩

/-- The round trips on `symbol`, against the textbook netting of its trades. -/
structure Agrees (symbol : String) (made : List RoundTripTrade) (booked : List BookedTrade) : Prop
    where
  closed : ((made.filter fun one => one.isClosed ∧ one.contract.symbol = symbol).map
    RoundTripTrade.asMatch).Perm (fifo booked).closed
  opened : (made.filter fun one => ¬ one.isClosed ∧ one.contract.symbol = symbol).map
    RoundTripTrade.entryLot = (fifo booked).lots
  commission : ((made.filter fun one => one.contract.symbol = symbol).map
    RoundTripTrade.commission).sum = (booked.map BookedTrade.commission).sum

/-- What a round trip reports. -/
structure Reports (contracts : List Contract) (one : RoundTripTrade) : Prop where
  contract : one.contract ∈ contracts
  exits : one.exitPrice.isSome = one.isClosed ∧ one.exitCommission.isSome = one.isClosed
  netPnl : one.netPnl = if one.isClosed then
      one.qty * (one.exitPrice.getD 0 - one.entryPrice) * one.contract.multiplier - one.commission
    else 0

theorem onSymbol_booked (heap : Heap V) (symbol : String) (refs : List Nat) :
    (onSymbol heap symbol refs).map (fun ref => (heap.trades.read ref).toBookedTrade) =
      tradesOf (refs.map fun ref => (heap.trades.read ref).toBookedTrade) symbol := by
  rw [onSymbol, tradesOf, List.filter_map]
  rfl

theorem fifo_onSymbol (heap : Heap V) (symbol : String) (refs : List Nat) :
    netAll [] ((onSymbol heap symbol refs).map (lotOf heap)) =
      fifo (tradesOf (refs.map fun ref => (heap.trades.read ref).toBookedTrade) symbol) := by
  rw [fifo, ← onSymbol_booked, List.map_map]
  rfl

theorem Copied.source {before after : Heap V} {index : Nat} {sources working : List Nat}
    (h : Copied before index sources working after) {ref : Nat} (member : ref ∈ working) :
    ∃ source ∈ sources,
      (before.trades.read source).toBookedTrade = (after.trades.read ref).toBookedTrade := by
  have mapped : (after.trades.read ref).toBookedTrade ∈
      sources.map fun source => (before.trades.read source).toBookedTrade := by
    rw [← h.booked]
    exact List.mem_map_of_mem member
  exact List.mem_map.mp mapped

theorem Copied.indexed_of_mem {before after : Heap V} {index : Nat} {sources working : List Nat}
    (h : Copied before index sources working after) {ref : Nat} (member : ref ∈ working) :
    Indexed after (after.trades.read ref).properties (index + (ref - before.trades.next)) := by
  rw [h.refs, List.mem_range'_1] at member
  have indexed := h.indexed (ref - before.trades.next) (by omega)
  rwa [show before.trades.next + (ref - before.trades.next) = ref by omega] at indexed

theorem Copied.working {before after : Heap V} {index : Nat} {sources working : List Nat}
    (h : Copied before index sources working after)
    (nonzero : ∀ ref ∈ sources, (before.trades.read ref).qty ≠ 0)
    (oneContract : ∀ ref ∈ sources, ∀ other ∈ sources,
      (before.trades.read ref).contract.symbol = (before.trades.read other).contract.symbol →
        (before.trades.read ref).contract = (before.trades.read other).contract) :
    Working after working := by
  constructor
  · rw [h.refs]
    exact List.nodup_range'
  · intro ref member
    obtain ⟨source, listed, same⟩ := h.source member
    have qtyEq := congrArg BookedTrade.qty same
    exact fun zero => nonzero source listed (qtyEq.trans zero)
  · exact fun ref member => ⟨_, h.indexed_of_mem member⟩
  · intro ref member other otherMember sameSymbol
    obtain ⟨source, listed, same⟩ := h.source member
    obtain ⟨otherSource, otherListed, otherSame⟩ := h.source otherMember
    have contractEq := congrArg BookedTrade.contract same
    have otherEq := congrArg BookedTrade.contract otherSame
    rw [← contractEq, ← otherEq] at sameSymbol ⊢
    exact oneContract source listed otherSource otherListed sameSymbol

theorem NettedSoFar.openRefs {start : Heap V} {done : List Nat} {progress : Progress V}
    (h : NettedSoFar start done progress) (symbol : String) :
    (onSymbol start symbol progress.openStacks.values.flatten) =
      progress.openStacks.listAt symbol :=
  OrderedDict.filter_flatten_values _ (fun _ _ member =>
    (mem_onSymbol.mp ((h.kept _).subset member)).2) symbol

theorem NettedSoFar.openRefs_done {start : Heap V} {done : List Nat} {progress : Progress V}
    (h : NettedSoFar start done progress) :
    ∀ ref ∈ progress.openStacks.values.flatten, ref ∈ done := by
  intro ref member
  have listed : ref ∈ onSymbol start (start.trades.read ref).contract.symbol
      progress.openStacks.values.flatten := mem_onSymbol.mpr ⟨member, rfl⟩
  rw [h.openRefs] at listed
  exact (mem_onSymbol.mp ((h.kept _).subset listed)).1

/-- The closed and the open round trips, before they are sorted. -/
structure Gathered (start : Heap V) (base : Nat) (working : List Nat) (progress : Progress V)
    (opened : List RoundTripTrade) (final : Heap V) : Prop where
  reconciled : NettedSoFar start working progress
  related : List.Forall₂ (fun ref one => ref ∈ working ∧ Opens progress.heap ref one)
    progress.openStacks.values.flatten opened
  namespaces : KeepsBelow progress.heap.namespaces.next progress.heap.namespaces final.namespaces
  positions : ∀ ref ∈ working, Indexed start (start.trades.read ref).properties (ref - base)
  ordered : working.Pairwise (· < ·)
  above : ∀ ref ∈ working, base ≤ ref

section Gathered

variable {start final : Heap V} {base : Nat} {working : List Nat} {progress : Progress V}
  {opened : List RoundTripTrade}

theorem Gathered.indexed (h : Gathered start base working progress opened final) {properties index : Nat}
    (indexed : Indexed progress.heap properties index) : final.index properties = .ok index :=
  (index_eq_of_read (h.namespaces.read properties indexed.1)).trans indexed.2

theorem Gathered.opens (h : Gathered start base working progress opened final) {one : RoundTripTrade}
    (member : one ∈ opened) : ∃ ref ∈ working, Opens progress.heap ref one := by
  obtain ⟨i, inside, rfl⟩ := List.getElem_of_mem member
  have lengths := h.related.length_eq
  obtain ⟨ref_working, opens⟩ := h.related.get (by omega) inside
  exact ⟨_, ref_working, opens⟩

theorem Gathered.position (h : Gathered start base working progress opened final) {ref : Nat}
    (member : ref ∈ working) {one : RoundTripTrade} (opens : Opens progress.heap ref one) :
    final.index one.entryProperties = .ok (ref - base) := by
  rw [opens.properties, h.reconciled.settles.properties]
  exact h.indexed ((h.positions ref member).settles h.reconciled.settles)

theorem Gathered.all_indexed (h : Gathered start base working progress opened final) :
    ∀ one ∈ progress.reconciled ++ opened,
      ∃ index, final.index one.entryProperties = .ok index := by
  intro one member
  rcases List.mem_append.mp member with closed | isOpen
  · obtain ⟨_, _, closed⟩ := h.reconciled.roundtrips one closed
    obtain ⟨index, indexed⟩ := closed.indexed
    exact ⟨index, h.indexed indexed⟩
  · obtain ⟨ref, listed, opens⟩ := h.opens isOpen
    exact ⟨_, h.position listed opens⟩

theorem Gathered.filter_opened (h : Gathered start base working progress opened final)
    (symbol : String) {γ : Type} {f : Nat → γ} {g : RoundTripTrade → γ}
    (read : ∀ ref one, ref ∈ working → Opens progress.heap ref one → f ref = g one) :
    (opened.filter fun one => one.contract.symbol = symbol).map g =
      (progress.openStacks.listAt symbol).map f := by
  rw [← h.reconciled.openRefs symbol, onSymbol]
  refine filter_map_eq_of_forall₂ h.related fun ref one related => ⟨?_, ?_⟩
  · rw [related.2.contract, h.reconciled.settles.contract]
  · exact read ref one related.1 related.2

theorem Gathered.opened_isOpen (h : Gathered start base working progress opened final) :
    ∀ one ∈ opened, one.isClosed = false := by
  intro one member
  obtain ⟨_, _, opens⟩ := h.opens member
  rw [RoundTripTrade.isClosed, opens.isOpen]
  rfl

theorem Gathered.reconciled_isClosed (h : Gathered start base working progress opened final) :
    ∀ one ∈ progress.reconciled, one.isClosed = true := by
  intro one member
  obtain ⟨_, _, closed⟩ := h.reconciled.roundtrips one member
  exact closed.exitOrder

/-- Sorting by entry index leaves the open round trips of a symbol as they stood. -/
theorem Gathered.sorted_opened (h : Gathered start base working progress opened final)
    (symbol : String) :
    (((progress.reconciled ++ opened).insertionSort fun a b =>
        entryIndex final a ≤ entryIndex final b).filter fun one =>
          ¬ one.isClosed ∧ one.contract.symbol = symbol) =
      opened.filter fun one => one.contract.symbol = symbol := by
  have keys : (opened.filter fun one => one.contract.symbol = symbol).map (entryIndex final) =
      (progress.openStacks.listAt symbol).map fun ref => ref - base := by
    refine h.filter_opened symbol fun ref one member opens => ?_
    rw [entryIndex, h.position member opens]
    rfl
  have ordered : (opened.filter fun one => one.contract.symbol = symbol).Pairwise fun a b =>
      entryIndex final a ≤ entryIndex final b := by
    rw [← List.pairwise_map (R := (· ≤ ·)) (f := entryIndex final), keys, List.pairwise_map]
    have stack := h.ordered.sublist ((h.reconciled.kept symbol).trans List.filter_sublist)
    exact stack.imp fun less => Nat.sub_le_sub_right less.le base
  have unsorted : ((progress.reconciled ++ opened).filter fun one =>
      ¬ one.isClosed ∧ one.contract.symbol = symbol) =
        opened.filter fun one => one.contract.symbol = symbol := by
    rw [List.filter_append, List.filter_eq_nil_iff.mpr, List.nil_append]
    · refine List.filter_congr fun one member => ?_
      simp [h.opened_isOpen one member]
    · intro one member
      simp [h.reconciled_isClosed one member]
  have perm := List.perm_insertionSort (fun a b => entryIndex final a ≤ entryIndex final b)
    (progress.reconciled ++ opened)
  have within : (opened.filter fun one => one.contract.symbol = symbol).Sublist
      ((progress.reconciled ++ opened).insertionSort fun a b =>
        entryIndex final a ≤ entryIndex final b) :=
    List.sublist_insertionSort ordered
      (List.filter_sublist.trans (List.sublist_append_right _ _))
  have kept := within.filter fun one => decide (¬ one.isClosed ∧ one.contract.symbol = symbol)
  have whole : (opened.filter fun one => one.contract.symbol = symbol).filter
      (fun one => decide (¬ one.isClosed ∧ one.contract.symbol = symbol)) =
        opened.filter fun one => one.contract.symbol = symbol := by
    refine List.filter_eq_self.mpr fun one member => ?_
    obtain ⟨listed, onIt⟩ := List.mem_filter.mp member
    simpa [h.opened_isOpen one listed] using onIt
  rw [whole] at kept
  refine (kept.eq_of_length ?_).symm
  rw [(perm.filter _).length_eq, unsorted]

theorem Gathered.perm (made : List RoundTripTrade) (final : Heap V) :
    (made.insertionSort fun a b => entryIndex final a ≤ entryIndex final b).Perm made :=
  List.perm_insertionSort _ _

/-- The sorted round trips agree with the netting of each symbol's trades. -/
theorem Gathered.agrees (h : Gathered start base working progress opened final) (symbol : String) :
    Agrees symbol ((progress.reconciled ++ opened).insertionSort fun a b =>
        entryIndex final a ≤ entryIndex final b)
      (tradesOf (working.map fun ref => (start.trades.read ref).toBookedTrade) symbol) := by
  have perm := Gathered.perm (progress.reconciled ++ opened) final
  constructor
  · have closedPart : ((progress.reconciled ++ opened).filter fun one =>
        one.isClosed ∧ one.contract.symbol = symbol) =
          progress.reconciled.filter fun one => one.contract.symbol = symbol := by
      rw [List.filter_append]
      have noneOpen : (opened.filter fun one =>
          decide (one.isClosed ∧ one.contract.symbol = symbol)) = [] :=
        List.filter_eq_nil_iff.mpr fun one member => by simp [h.opened_isOpen one member]
      rw [noneOpen, List.append_nil]
      refine List.filter_congr fun one member => ?_
      simp [h.reconciled_isClosed one member]
    have same := (perm.filter fun one => one.isClosed ∧ one.contract.symbol = symbol).map
      RoundTripTrade.asMatch
    rwa [closedPart, h.reconciled.closed, fifo_onSymbol] at same
  · have lots : (opened.filter fun one => one.contract.symbol = symbol).map
        RoundTripTrade.entryLot = (progress.openStacks.listAt symbol).map (lotOf progress.heap) :=
      h.filter_opened symbol fun ref one _ opens => opens.lot.symm
    rw [h.sorted_opened symbol, lots, h.reconciled.lots, fifo_onSymbol]
  · have same := ((perm.filter fun one => one.contract.symbol = symbol).map
      RoundTripTrade.commission).sum_eq
    have total := h.reconciled.commission symbol
    rw [same, List.filter_append, List.map_append, List.sum_append,
      h.filter_opened symbol fun ref one _ opens => opens.commission.symm, add_comm, total,
      ← onSymbol_booked, List.map_map]
    rfl

theorem Gathered.reports (h : Gathered start base working progress opened final) :
    ∀ one ∈ (progress.reconciled ++ opened).insertionSort fun a b =>
        entryIndex final a ≤ entryIndex final b,
      Reports (working.map fun ref => (start.trades.read ref).contract) one := by
  intro one member
  rcases List.mem_append.mp ((Gathered.perm _ _).mem_iff.mp member) with closed | isOpen
  · obtain ⟨ref, listed, facts⟩ := h.reconciled.roundtrips one closed
    have isClosed := h.reconciled_isClosed one closed
    refine ⟨facts.onContract ▸ List.mem_map_of_mem listed, ?_, ?_⟩
    · rw [facts.exits.1, facts.exits.2, isClosed]
      exact ⟨rfl, rfl⟩
    · rw [if_pos isClosed, facts.netPnl, facts.onContract]
  · obtain ⟨ref, listed, opens⟩ := h.opens isOpen
    refine ⟨?_, ?_, ?_⟩
    · rw [opens.contract, h.reconciled.settles.contract]
      exact List.mem_map_of_mem listed
    · rw [opens.noExit.1, opens.noExit.2, h.opened_isOpen one isOpen]
      exact ⟨rfl, rfl⟩
    · rw [h.opened_isOpen one isOpen, opens.netPnl]
      rfl

end Gathered

theorem roundtripTrades_reports (heap : Heap V) (trades : List Nat)
    (alive : ∀ ref ∈ trades, ref < heap.trades.next)
    (nonzero : ∀ ref ∈ trades, (heap.trades.read ref).qty ≠ 0)
    (oneContract : ∀ ref ∈ trades, ∀ other ∈ trades,
      (heap.trades.read ref).contract.symbol = (heap.trades.read other).contract.symbol →
        (heap.trades.read ref).contract = (heap.trades.read other).contract) :
    ∃ made after, roundtripTrades reasonCode trades heap = .ok (made, after) ∧
      KeepsBelow heap.trades.next heap.trades after.trades ∧
      KeepsBelow heap.namespaces.next heap.namespaces after.namespaces ∧
      (∀ symbol, Agrees symbol made
        (tradesOf (trades.map fun ref => (heap.trades.read ref).toBookedTrade) symbol)) ∧
      ∀ one ∈ made, Reports (trades.map fun ref => (heap.trades.read ref).contract) one := by
  have copied := copyTrades_copied trades 0 heap alive
  obtain ⟨working, workingEq⟩ : ∃ working, (copyTrades 0 trades heap).1 = working := ⟨_, rfl⟩
  obtain ⟨start, startEq⟩ : ∃ start, (copyTrades 0 trades heap).2 = start := ⟨_, rfl⟩
  rw [workingEq, startEq] at copied
  have asMany : working.length = trades.length := by
    rw [copied.refs, List.length_range']
  obtain ⟨progress, takes, reconciled⟩ := foldlM_takeTrade reasonCode
    (copied.working nonzero oneContract) (by omega : working.length < trades.length + 1)
  obtain ⟨related, tradesSame, namespaces⟩ :=
    openRoundTrips_opens reasonCode progress.openStacks.values.flatten progress.heap
  obtain ⟨opened, openedEq⟩ : ∃ opened, (openRoundTrips reasonCode
    progress.openStacks.values.flatten progress.heap).1 = opened := ⟨_, rfl⟩
  obtain ⟨final, finalEq⟩ : ∃ final, (openRoundTrips reasonCode
    progress.openStacks.values.flatten progress.heap).2 = final := ⟨_, rfl⟩
  rw [openedEq] at related
  rw [finalEq] at tradesSame namespaces
  have gathered : Gathered start heap.trades.next working progress opened final := by
    refine ⟨reconciled, ?_, namespaces, ?_, ?_, ?_⟩
    · exact (List.forall₂_and_left _ _).mpr ⟨reconciled.openRefs_done, related⟩
    · intro ref member
      have indexed := copied.indexed_of_mem member
      rwa [Nat.zero_add] at indexed
    · rw [copied.refs]
      exact List.pairwise_lt_range'
    · intro ref member
      rw [copied.refs, List.mem_range'_1] at member
      exact member.1
  have above : ∀ one ∈ progress.reconciled ++ opened, heap.namespaces.next ≤ one.entryProperties := by
    intro one member
    rcases List.mem_append.mp member with closed | isOpen
    · obtain ⟨_, _, facts⟩ := reconciled.roundtrips one closed
      exact copied.namespaces.grows.trans facts.fresh
    · obtain ⟨ref, listed, opens⟩ := gathered.opens isOpen
      rw [opens.properties, reconciled.settles.properties]
      exact copied.fresh ref listed
  have agrees := gathered.agrees
  have reports := gathered.reports
  have perm := Gathered.perm (progress.reconciled ++ opened) final
  have sorts := sortByIndex_eq gathered.all_indexed
  generalize (progress.reconciled ++ opened).insertionSort (fun a b =>
    entryIndex final a ≤ entryIndex final b) = made at agrees reports perm sorts
  obtain ⟨after, renumbers, tradesAfter, namespacesAfter⟩ := renumber_runs heap.namespaces.next
    made 0 final fun one member =>
      ⟨above one (perm.mem_iff.mp member), gathered.all_indexed one (perm.mem_iff.mp member)⟩
  refine ⟨made, after, ?_, ?_, ?_, ?_, ?_⟩
  · rw [roundtripTrades]
    simp only [workingEq, startEq, takes, openedEq, finalEq, bind, Except.bind,
      sorts, renumbers]
  · -- the working copies stand above the caller's trades
    constructor
    · intro ref below
      have outside : ref ∉ working := fun member => by
        rw [copied.refs, List.mem_range'_1] at member
        omega
      rw [tradesAfter, tradesSame, reconciled.settles.elsewhere ref outside]
      exact copied.trades.read ref below
    · rw [tradesAfter, tradesSame, reconciled.settles.tradesNext]
      exact copied.trades.grows
  · refine copied.namespaces.trans ?_
    refine (reconciled.settles.namespaces.mono copied.namespaces.grows).trans ?_
    refine (namespaces.mono ?_).trans namespacesAfter
    exact copied.namespaces.grows.trans reconciled.settles.namespaces.grows
  · intro symbol
    rw [← copied.booked]
    exact agrees symbol
  · intro one member
    have contracts : working.map (fun ref => (start.trades.read ref).contract) =
        trades.map fun ref => (heap.trades.read ref).contract := by
      have same := congrArg (List.map BookedTrade.contract) copied.booked
      rwa [List.map_map, List.map_map] at same
    rw [← contracts]
    exact reports one member

/-! ## Against the kernel -/

theorem Agrees.realized {symbol : String} {made : List RoundTripTrade} {booked : List BookedTrade}
    (h : Agrees symbol made booked) (multiplier : ℚ) :
    ((made.filter fun one => one.isClosed ∧ one.contract.symbol = symbol).map fun one =>
        one.qty * (one.exitPrice.getD 0 - one.entryPrice) * multiplier).sum =
      multiplier * profit (fifo booked).closed := by
  have same := (h.closed.map fun m => (m.lotQty : ℚ) * (m.closePrice - m.lotPrice)).sum_eq
  rw [List.map_map] at same
  rw [profit, ← same, List.sum_map_mul_right, mul_comm]
  rfl

theorem Agrees.turnover {symbol : String} {made : List RoundTripTrade} {booked : List BookedTrade}
    (h : Agrees symbol made booked) :
    2 * ((made.filter fun one => one.isClosed ∧ one.contract.symbol = symbol).map fun one =>
          |one.qty|).sum +
        ((made.filter fun one => ¬ one.isClosed ∧ one.contract.symbol = symbol).map fun one =>
          |one.qty|).sum =
      (booked.map fun trade => |trade.qty|).sum := by
  have closed : closedTurnover (fifo booked).closed =
      ((made.filter fun one => one.isClosed ∧ one.contract.symbol = symbol).map fun one =>
        |one.qty|).sum := by
    have same := (h.closed.map fun m => |m.lotQty|).sum_eq
    rw [List.map_map] at same
    exact same.symm
  have opened : FifoNetting.turnover (fifo booked).lots =
      ((made.filter fun one => ¬ one.isClosed ∧ one.contract.symbol = symbol).map fun one =>
        |one.qty|).sum := by
    rw [← h.opened, FifoNetting.turnover, List.map_map]
    rfl
  have conserved := netAll_turnover [] (booked.map fun trade => (⟨trade.qty, trade.price⟩ : Lot ℚ))
    legal_nil
  have traded : FifoNetting.turnover (booked.map fun trade => (⟨trade.qty, trade.price⟩ : Lot ℚ)) =
      (booked.map fun trade => |trade.qty|).sum := by
    rw [FifoNetting.turnover, List.map_map]
    rfl
  rw [← fifo, traded] at conserved
  rw [← closed, ← opened, add_comm, conserved, turnover_nil, zero_add]

theorem calcTradePnl_fifo (booked : List BookedTrade) (multiplier : ℚ) :
    calcTradePnl [] [] (booked.map BookedTrade.qty) (booked.map BookedTrade.price) multiplier =
      .ok ⟨(fifo booked).lots.map Lot.qty, (fifo booked).lots.map Lot.price,
        multiplier * profit (fifo booked).closed⟩ := by
  have pairs := calcTradePnl_pairs [] (booked.map fun trade => (trade.qty, trade.price)) multiplier
    legal_nil
  simp only [List.map_map, List.map_nil, Function.comp_def, toLots] at pairs
  exact pairs

/-- Symbols name contracts, in the registry and in what was made from it. -/
theorem symbol_eq_iff {registry : Registry} {contract other : Contract}
    (listed : contract ∈ registry.contracts) (otherListed : other ∈ registry.contracts) :
    other.symbol = contract.symbol ↔ other = contract :=
  ⟨fun same => List.inj_on_of_nodup_map registry.unique otherListed listed same,
    fun same => same ▸ rfl⟩

/-- For each contract: the closed round trips make the kernel's realized P&L,
the open ones are its remaining lots, quantities and commissions are conserved,
and no trade and no namespace of the caller is changed. -/
theorem roundtripTrades_agrees_with_kernel (registry : Registry) (heap : Heap V) (trades : List Nat)
    (alive : ∀ ref ∈ trades, ref < heap.trades.next)
    (registered : ∀ ref ∈ trades, (heap.trades.read ref).contract ∈ registry.contracts)
    (nonzero : ∀ ref ∈ trades, (heap.trades.read ref).qty ≠ 0) :
    ∃ made after, roundtripTrades reasonCode trades heap = .ok (made, after) ∧
      (∀ ref < heap.trades.next, after.trades.read ref = heap.trades.read ref) ∧
      (∀ ref < heap.namespaces.next, after.namespaces.read ref = heap.namespaces.read ref) ∧
      (∀ one ∈ made, one.exitPrice.isSome = one.isClosed ∧
        one.exitCommission.isSome = one.isClosed) ∧
      ∀ contract ∈ registry.contracts, ∀ (booked : List TradeObject)
        (closed opened : List RoundTripTrade),
        booked = (trades.map heap.trades.read).filter (fun trade => trade.contract = contract) →
        closed = made.filter (fun one => one.isClosed ∧ one.contract = contract) →
        opened = made.filter (fun one => ¬ one.isClosed ∧ one.contract = contract) →
        ∃ result, calcTradePnl [] [] (booked.map fun trade => trade.qty)
            (booked.map fun trade => trade.price) contract.multiplier = .ok result ∧
          (closed.map fun one =>
            one.qty * (one.exitPrice.getD 0 - one.entryPrice) * contract.multiplier).sum =
              result.realized ∧
          opened.map RoundTripTrade.qty = result.openQtys ∧
          opened.map RoundTripTrade.entryPrice = result.openPrices ∧
          2 * (closed.map fun one => |one.qty|).sum + (opened.map fun one => |one.qty|).sum =
            (booked.map fun trade => |trade.qty|).sum ∧
          ((made.filter fun one => one.contract = contract).map RoundTripTrade.commission).sum =
            (booked.map fun trade => trade.commission).sum := by
  have oneContract : ∀ ref ∈ trades, ∀ other ∈ trades,
      (heap.trades.read ref).contract.symbol = (heap.trades.read other).contract.symbol →
        (heap.trades.read ref).contract = (heap.trades.read other).contract :=
    fun ref member other otherMember same =>
      (symbol_eq_iff (registered other otherMember) (registered ref member)).mp same
  obtain ⟨made, after, runs, tradesKept, namespacesKept, agrees, reports⟩ :=
    roundtripTrades_reports reasonCode heap trades alive nonzero oneContract
  refine ⟨made, after, runs, tradesKept.read, namespacesKept.read,
    fun one member => (reports one member).exits, ?_⟩
  rintro contract listed booked closed opened bookedEq rfl rfl
  have madeListed : ∀ one ∈ made, one.contract ∈ registry.contracts := by
    intro one member
    obtain ⟨ref, refMember, same⟩ := List.mem_map.mp (reports one member).contract
    exact same ▸ registered ref refMember
  have named : ∀ one ∈ made, decide (one.contract = contract) =
      decide (one.contract.symbol = contract.symbol) := fun one member =>
    decide_eq_decide.mpr (symbol_eq_iff listed (madeListed one member)).symm
  have bookedOnSymbol : booked.map (fun trade => trade.toBookedTrade) =
      tradesOf (trades.map fun ref => (heap.trades.read ref).toBookedTrade) contract.symbol := by
    have same : booked = (trades.map heap.trades.read).filter fun trade =>
        trade.contract.symbol = contract.symbol := by
      rw [bookedEq]
      refine List.filter_congr fun trade member => ?_
      obtain ⟨ref, refMember, rfl⟩ := List.mem_map.mp member
      exact decide_eq_decide.mpr (symbol_eq_iff listed (registered ref refMember)).symm
    rw [same, tradesOf, List.filter_map, List.filter_map, List.map_map]
    rfl
  have agree := agrees contract.symbol
  rw [← bookedOnSymbol] at agree
  have closedEq : (made.filter fun one => one.isClosed ∧ one.contract = contract) =
      made.filter fun one => one.isClosed ∧ one.contract.symbol = contract.symbol :=
    List.filter_congr fun one member => by simp [named one member]
  have openedEq : (made.filter fun one => ¬ one.isClosed ∧ one.contract = contract) =
      made.filter fun one => ¬ one.isClosed ∧ one.contract.symbol = contract.symbol :=
    List.filter_congr fun one member => by simp [named one member]
  have ownEq : (made.filter fun one => one.contract = contract) =
      made.filter fun one => one.contract.symbol = contract.symbol :=
    List.filter_congr fun one member => named one member
  rw [closedEq, openedEq, ownEq]
  have kernel := calcTradePnl_fifo (booked.map fun trade => trade.toBookedTrade) contract.multiplier
  rw [List.map_map, List.map_map] at kernel
  refine ⟨_, kernel, agree.realized contract.multiplier, ?_, ?_, ?_, ?_⟩
  · dsimp only
    rw [← agree.opened, List.map_map]
    rfl
  · dsimp only
    rw [← agree.opened, List.map_map]
    rfl
  · have turnover := agree.turnover
    rwa [List.map_map] at turnover
  · have commission := agree.commission
    rwa [List.map_map] at commission

/-- Five trades: partial closes, a flip and a remainder. -/
def sampleHeap : Heap Unit :=
  let fills : List (Int × ℚ) := [(100, 9), (-50, 10), (20, 8), (-120, 11), (10, 12)]
  let fill (ref : Nat) := fills.getD ref (0, 0)
  ⟨⟨fun ref => ⟨⟨sampleStock, ref, sampleOrders 0, sampleTime 0, (fill ref).1, (fill ref).2, 0, 1⟩, ref⟩,
      5⟩, ⟨fun _ => .empty, 5⟩⟩

example : (roundtripTrades (fun _ => "DUMMY") [0, 1, 2, 3, 4] sampleHeap).toOption.map
      (fun result => result.1.map fun one => (one.qty, one.entryPrice, one.exitPrice)) =
    some [(50, 9, some 10), (50, 9, some 11), (20, 8, some 11), (-10, 11, some 12),
      (-40, 11, none)] := by decide +kernel

theorem roundtripTrades_agrees_with_kernel_sample :
    ∃ made after, roundtripTrades (fun _ => "DUMMY") [0, 1, 2, 3, 4] sampleHeap = .ok (made, after) ∧
      (∀ ref < 5, after.trades.read ref = sampleHeap.trades.read ref) ∧
      ∃ result, calcTradePnl [] [] [100, -50, 20, -120, 10] [9, 10, 8, 11, 12] 1 = .ok result ∧
        (made.filter fun one => ¬ one.isClosed ∧ one.contract = sampleStock).map
          RoundTripTrade.qty = result.openQtys := by
  obtain ⟨made, after, runs, kept, _, _, agrees⟩ := roundtripTrades_agrees_with_kernel
    (fun _ => "DUMMY") ⟨[sampleStock], by decide⟩ sampleHeap [0, 1, 2, 3, 4] (by decide)
    (by decide +kernel) (by decide +kernel)
  obtain ⟨result, kernel, _, opened, _⟩ := agrees sampleStock (by decide +kernel) _ _ _ rfl rfl rfl
  exact ⟨made, after, runs, kept, result, kernel, opened⟩

end Gambit.TradeReconciliation
