import Gambit.Accounting.KernelFifo
import Gambit.Lib.FifoBoundaries

/-!
# The plain P&L kernel

`calc_trade_pnl_old` of compute_pnl.pyx keeps its lots in arrays with room for
every new trade and walks an index array over the nonzero ones; a netted lot
stays in its slot and a mask drops the zeros at the end.  Doubles are exact
rationals, zero is the positive zero, and an index outside an array gives no
result.
-/

set_option autoImplicit false

namespace Gambit.PlainKernel

open FifoNetting ComputePnl KernelFifo

/-- `math.copysign(1, value)`; the sign of zero is positive. -/
def copysign (value : Int) : Int := if 0 ≤ value then 1 else -1

/-- `np.nonzero(qtys)[0]`. -/
def nonzeroIndices (qtys : List Int) : List Nat :=
  (List.range qtys.length).filter fun idx => qtys[idx]? ≠ some 0

/-- The names of the locals: `i` walks the new quantities, `j` and `o` bound
the indices of the open ones, `k` is the next free slot. -/
structure Locals where
  newQtys : List Int
  openQtys : List Int
  openPrices : List ℚ
  openQtyIndices : List Nat
  i : Nat
  o : Nat
  j : Nat
  k : Nat
  realized : ℚ
deriving Repr

/-- Nothing to net against: the trade takes slot `k`. -/
def Locals.append (s : Locals) (newIdx : Nat) (newQty : Int) (newPrice : ℚ) : Option Locals :=
  if s.k < s.openQtys.length ∧ s.k < s.openPrices.length ∧ s.o < s.openQtyIndices.length then
    some { s with
      openQtys := s.openQtys.set s.k newQty
      openPrices := s.openPrices.set s.k newPrice
      openQtyIndices := s.openQtyIndices.set s.o s.k
      k := s.k + 1
      o := s.o + 1
      newQtys := s.newQtys.set newIdx 0
      i := s.i + 1 }
  else none

/-- One iteration of the `while` loop. -/
def iterate (newQtyIndices : List Nat) (newPrices : List ℚ) (s : Locals) : Option Locals := do
  let newIdx ← newQtyIndices[s.i]?
  let newQty ← s.newQtys[newIdx]?
  let newPrice ← newPrices[newIdx]?
  if s.j < s.o then
    let openIdx ← s.openQtyIndices[s.j]?
    let openQty ← s.openQtys[openIdx]?
    let openPrice ← s.openPrices[openIdx]?
    if copysign openQty = copysign newQty then s.append newIdx newQty newPrice
    else if newQty.natAbs > openQty.natAbs then
      some { s with
        realized := s.realized + openQty * (newPrice - openPrice)
        openQtys := s.openQtys.set openIdx 0
        j := s.j + 1
        newQtys := s.newQtys.set newIdx (newQty + openQty) }
    else
      some { s with
        realized := s.realized + newQty * (openPrice - newPrice)
        newQtys := s.newQtys.set newIdx 0
        i := s.i + 1
        openQtys := s.openQtys.set openIdx (openQty + newQty) }
  else s.append newIdx newQty newPrice

def calcLoopOld (newQtyIndices : List Nat) (newPrices : List ℚ) : Nat → Locals → Option Locals
  | 0, _ => none
  | fuel + 1, s =>
      if s.i < newQtyIndices.length then
        (iterate newQtyIndices newPrices s).bind (calcLoopOld newQtyIndices newPrices fuel)
      else some s

def start (openQtys : List Int) (openPrices : List ℚ) (newQtys : List Int) (newPrices : List ℚ) :
    Locals where
  newQtys := newQtys
  openQtys := openQtys ++ List.replicate newQtys.length 0
  openPrices := openPrices ++ List.replicate newPrices.length 0
  openQtyIndices := nonzeroIndices (openQtys ++ List.replicate newQtys.length 0) ++
    List.replicate (openQtys.length + newQtys.length -
      (nonzeroIndices (openQtys ++ List.replicate newQtys.length 0)).length) 0
  i := 0
  o := (nonzeroIndices (openQtys ++ List.replicate newQtys.length 0)).length
  j := 0
  k := openQtys.length
  realized := 0

/-- What the mask leaves of the slots. -/
def Locals.masked (s : Locals) : List Trade := openLots s.openQtys s.openPrices

def calcTradePnlOld (openQtys : List Int) (openPrices : List ℚ) (newQtys : List Int)
    (newPrices : List ℚ) (multiplier : ℚ) : Except Exn PnlResult :=
  match calcLoopOld (nonzeroIndices newQtys) newPrices
      (2 * newQtys.length + openQtys.length + 1) (start openQtys openPrices newQtys newPrices) with
  | some s => .ok ⟨s.masked.map Lot.qty, s.masked.map Lot.price, s.realized * multiplier⟩
  | none => .error .undefinedBehaviour

example : calcTradePnlOld [15, 0, 8] [6, 9, 5] [-20, 0, -5] [8, 4, 7] 100 =
    calcTradePnl [15, 0, 8] [6, 9, 5] [-20, 0, -5] [8, 4, 7] 100 := by decide +kernel

/-! ## Reading trades through indices -/

structure Reads (qtys : List Int) (prices : List ℚ) (entries : List (Nat × Trade)) : Prop where
  ordered : (entries.map Prod.fst).Pairwise (· < ·)
  reads : ∀ entry ∈ entries,
    qtys[entry.1]? = some entry.2.qty ∧ prices[entry.1]? = some entry.2.price

variable {qtys : List Int} {prices : List ℚ}

theorem Reads.head {entry : Nat × Trade} {entries : List (Nat × Trade)}
    (h : Reads qtys prices (entry :: entries)) :
    qtys[entry.1]? = some entry.2.qty ∧ prices[entry.1]? = some entry.2.price :=
  h.reads entry (List.mem_cons_self ..)

theorem Reads.tail {entry : Nat × Trade} {entries : List (Nat × Trade)}
    (h : Reads qtys prices (entry :: entries)) : Reads qtys prices entries := by
  have ordered := h.ordered
  rw [List.map_cons, List.pairwise_cons] at ordered
  exact ⟨ordered.2, fun later member => h.reads later (List.mem_cons_of_mem _ member)⟩

theorem Reads.head_lt {entry : Nat × Trade} {entries : List (Nat × Trade)}
    (h : Reads qtys prices (entry :: entries)) : ∀ later ∈ entries, entry.1 < later.1 := by
  intro later member
  have ordered := h.ordered
  rw [List.map_cons, List.pairwise_cons] at ordered
  exact ordered.1 later.1 (List.mem_map_of_mem member)

/-- The entries behind the first are still read when its slot is rewritten. -/
theorem Reads.tail_set {entry : Nat × Trade} {entries : List (Nat × Trade)}
    (h : Reads qtys prices (entry :: entries)) (qty : Int) :
    Reads (qtys.set entry.1 qty) prices entries := by
  refine ⟨h.tail.ordered, fun later member => ?_⟩
  have distinct := h.head_lt later member
  rw [List.getElem?_set_ne (by omega)]
  exact h.reads later (List.mem_cons_of_mem _ member)

theorem Reads.head_set {entry : Nat × Trade} {entries : List (Nat × Trade)}
    (h : Reads qtys prices (entry :: entries)) (qty : Int) :
    Reads (qtys.set entry.1 qty) prices ((entry.1, ⟨qty, entry.2.price⟩) :: entries) := by
  refine ⟨by simpa using h.ordered, fun later member => ?_⟩
  rcases List.mem_cons.mp member with rfl | member
  · obtain ⟨inside, _⟩ := List.getElem?_eq_some_iff.mp h.head.1
    exact ⟨by simp [inside], h.head.2⟩
  · exact (h.tail_set qty).reads later member

theorem Reads.snoc {entries : List (Nat × Trade)} (h : Reads qtys prices entries) {k : Nat}
    (below : ∀ entry ∈ entries, entry.1 < k) (slot : k < qtys.length)
    (slot' : k < prices.length) (trade : Trade) :
    Reads (qtys.set k trade.qty) (prices.set k trade.price) (entries ++ [(k, trade)]) := by
  constructor
  · rw [List.map_append, List.pairwise_append]
    refine ⟨h.ordered, List.pairwise_singleton _ _, ?_⟩
    intro early earlyMember late lateMember
    obtain ⟨entry, member, rfl⟩ := List.mem_map.mp earlyMember
    rw [List.map_singleton, List.mem_singleton] at lateMember
    rw [lateMember]
    exact below entry member
  · intro entry member
    rcases List.mem_append.mp member with member | member
    · have distinct := below entry member
      rw [List.getElem?_set_ne (by omega), List.getElem?_set_ne (by omega)]
      exact h.reads entry member
    · rw [List.mem_singleton.mp member]
      simp [slot, slot']

theorem Reads.filter {entries : List (Nat × Trade)} (h : Reads qtys prices entries)
    (keep : Nat × Trade → Bool) : Reads qtys prices (entries.filter keep) :=
  ⟨h.ordered.sublist (List.filter_sublist.map _), fun entry member =>
    h.reads entry (List.mem_of_mem_filter member)⟩

/-- What is read at the same indices is the same. -/
theorem Reads.unique {left right : List (Nat × Trade)} (hl : Reads qtys prices left)
    (hr : Reads qtys prices right) (indices : left.map Prod.fst = right.map Prod.fst) :
    left = right := by
  induction left generalizing right with
  | nil => simpa using indices.symm
  | cons entry left ih =>
      cases right with
      | nil => simp at indices
      | cons other right =>
          rw [List.map_cons, List.map_cons, List.cons.injEq] at indices
          have sameTrade : entry.2 = other.2 := by
            have readsLeft := hl.head
            have readsRight := hr.head
            rw [indices.1, readsRight.1, readsRight.2] at readsLeft
            obtain ⟨sameQty, samePrice⟩ := readsLeft
            cases entryTrade : entry.2
            cases otherTrade : other.2
            simp_all
          rw [ih hl.tail hr.tail indices.2, Prod.ext indices.1 sameTrade]

theorem mem_nonzeroIndices {idx : Nat} :
    idx ∈ nonzeroIndices qtys ↔ ∃ qty, qtys[idx]? = some qty ∧ qty ≠ 0 := by
  rw [nonzeroIndices, List.mem_filter, List.mem_range]
  constructor
  · rintro ⟨inside, nonzero⟩
    refine ⟨qtys[idx], List.getElem?_eq_getElem inside, ?_⟩
    rw [List.getElem?_eq_getElem inside] at nonzero
    simpa using nonzero
  · rintro ⟨qty, read, nonzero⟩
    obtain ⟨inside, _⟩ := List.getElem?_eq_some_iff.mp read
    exact ⟨inside, by simpa [read] using nonzero⟩

/-- The nonzero indices read the nonzero lots. -/
theorem reads_nonzero (same : qtys.length = prices.length) :
    ∃ entries, Reads qtys prices entries ∧ entries.map Prod.fst = nonzeroIndices qtys ∧
      entries.map Prod.snd = openLots qtys prices := by
  let readAt : Nat → Trade := fun idx => ⟨qtys[idx]?.getD 0, prices[idx]?.getD 0⟩
  have whole : lots qtys prices = (List.range qtys.length).map readAt := by
    apply List.ext_getElem
    · simp [lots, same]
    · intro idx inLots inRange
      rw [List.length_map, List.length_range] at inRange
      simp [lots, readAt, inRange, same ▸ inRange]
  refine ⟨(nonzeroIndices qtys).map fun idx => (idx, readAt idx), ⟨?_, ?_⟩, ?_, ?_⟩
  · rw [List.map_map]
    simp only [Function.comp_def, List.map_id']
    exact List.pairwise_lt_range.sublist List.filter_sublist
  · intro entry member
    obtain ⟨idx, listed, rfl⟩ := List.mem_map.mp member
    obtain ⟨qty, read, _⟩ := mem_nonzeroIndices.mp listed
    obtain ⟨inside, _⟩ := List.getElem?_eq_some_iff.mp read
    simp [readAt, inside, same ▸ inside]
  · simp [Function.comp_def]
  · rw [openLots, whole, List.filter_map, List.map_map, nonzeroIndices]
    refine congrArg _ (List.filter_congr ?_)
    intro idx member
    have inside := List.mem_range.mp member
    simp [readAt, inside]

theorem openLots_padded (same : qtys.length = prices.length) (n m : Nat) :
    openLots (qtys ++ List.replicate n 0) (prices ++ List.replicate m 0) = openLots qtys prices := by
  have noLots : openLots (List.replicate n 0) (List.replicate m 0) = [] := by
    rw [openLots, List.filter_eq_nil_iff]
    intro lot member
    obtain ⟨entry, listed, rfl⟩ := List.mem_map.mp member
    have zero := List.eq_of_mem_replicate (List.of_mem_zip listed).1
    simp [zero]
  rw [openLots] at noLots ⊢
  rw [lots, List.zip_append same, List.map_append, List.filter_append]
  exact (congrArg _ noLots).trans (List.append_nil _)

/-! ## The walk over lots

A lot list whose first lot may be a netted one, as the cursor sees it. -/

def walk (price : ℚ) : Int → List Trade → Netted ℚ
  | qty, [] => ⟨[⟨qty, price⟩], []⟩
  | qty, lot :: rest =>
      if copysign lot.qty = copysign qty then ⟨lot :: rest ++ [⟨qty, price⟩], []⟩
      else if qty.natAbs > lot.qty.natAbs then
        let tail := walk price (qty + lot.qty) rest
        ⟨tail.lots, ⟨lot.qty, lot.price, price⟩ :: tail.closed⟩
      else ⟨⟨lot.qty + qty, lot.price⟩ :: rest, [⟨-qty, lot.price, price⟩]⟩

def walkAll (book : List Trade) : List Trade → Netted ℚ
  | [] => ⟨book, []⟩
  | trade :: trades =>
      let head := walk trade.price trade.qty book
      let tail := walkAll head.lots trades
      ⟨tail.lots, head.closed ++ tail.closed⟩

theorem walkAll_append (book left right : List Trade) :
    walkAll book (left ++ right) =
      ⟨(walkAll (walkAll book left).lots right).lots,
        (walkAll book left).closed ++ (walkAll (walkAll book left).lots right).closed⟩ := by
  induction left generalizing book with
  | nil => rfl
  | cons trade left ih =>
      rw [List.cons_append, walkAll, ih, walkAll]
      simp only [List.append_assoc]

/-- The locals show the open lots from the cursor on and the trades to come;
every slot the cursor has left or not reached holds zero. -/
structure Shows (newQtyIndices : List Nat) (newPrices : List ℚ) (s : Locals)
    (slots news : List (Nat × Trade)) : Prop where
  newListed : newQtyIndices.drop s.i = news.map Prod.fst
  newReads : Reads s.newQtys newPrices news
  bounds : s.j ≤ s.o
  listed : (s.openQtyIndices.take s.o).drop s.j = slots.map Prod.fst
  openReads : Reads s.openQtys s.openPrices slots
  below : ∀ slot ∈ slots, slot.1 < s.k
  others : ∀ idx ∈ nonzeroIndices s.openQtys, idx ∈ slots.map Prod.fst
  roomSlots : s.k + news.length ≤ s.openQtys.length
  sameLength : s.openQtys.length = s.openPrices.length
  roomIndices : s.o + news.length ≤ s.openQtyIndices.length

theorem drop_succ_of_drop {l rest : List Nat} {i idx : Nat} (h : l.drop i = idx :: rest) :
    l[i]? = some idx ∧ l.drop (i + 1) = rest := by
  constructor
  · rw [← List.head?_drop, h]
    rfl
  · rw [← List.tail_drop, h]
    rfl

theorem mem_of_mem_nonzeroIndices_set {qtys : List Int} {k idx : Nat} {qty : Int}
    (nonzero : idx ∈ nonzeroIndices (qtys.set k qty)) (other : idx ≠ k) :
    idx ∈ nonzeroIndices qtys := by
  rw [mem_nonzeroIndices] at nonzero ⊢
  rwa [List.getElem?_set_ne (Ne.symm other)] at nonzero

section Iteration

variable {newQtyIndices : List Nat} {newPrices : List ℚ} {s : Locals}

theorem Shows.append {slots news : List (Nat × Trade)} {newIdx : Nat} {trade : Trade}
    (h : Shows newQtyIndices newPrices s slots ((newIdx, trade) :: news)) :
    ∃ s', s.append newIdx trade.qty trade.price = some s' ∧ s'.realized = s.realized ∧
      Shows newQtyIndices newPrices s' (slots ++ [(s.k, trade)]) news := by
  have roomSlots := h.roomSlots
  have roomIndices := h.roomIndices
  have sameLength := h.sameLength
  have bounds := h.bounds
  rw [List.length_cons] at roomSlots roomIndices
  refine ⟨_, if_pos ⟨by omega, by omega, by omega⟩, rfl, ?_⟩
  constructor
  · exact (drop_succ_of_drop h.newListed).2
  · exact h.newReads.tail_set 0
  · show s.j ≤ s.o + 1
    omega
  · show ((s.openQtyIndices.set s.o s.k).take (s.o + 1)).drop s.j = _
    have taken : (s.openQtyIndices.set s.o s.k).take (s.o + 1) =
        s.openQtyIndices.take s.o ++ [s.k] := by
      have inside : s.o < (s.openQtyIndices.set s.o s.k).length := by
        rw [List.length_set]
        omega
      rw [List.take_succ_eq_append_getElem inside, List.getElem_set_self,
        List.take_set_of_le (le_refl s.o)]
    have shorter : s.j ≤ (s.openQtyIndices.take s.o).length := by
      rw [List.length_take]
      omega
    rw [taken, List.drop_append_of_le_length shorter, h.listed, List.map_append]
    rfl
  · exact h.openReads.snoc h.below (by omega) (by omega) trade
  · intro slot member
    show slot.1 < s.k + 1
    rcases List.mem_append.mp member with member | member
    · exact Nat.lt_succ_of_lt (h.below slot member)
    · rw [List.mem_singleton.mp member]
      exact Nat.lt_succ_self _
  · intro idx nonzero
    rw [List.map_append, List.mem_append]
    by_cases last : idx = s.k
    · exact Or.inr (by simp [last])
    · exact Or.inl (h.others idx (mem_of_mem_nonzeroIndices_set nonzero last))
  · show s.k + 1 + news.length ≤ (s.openQtys.set s.k trade.qty).length
    rw [List.length_set]
    omega
  · show (s.openQtys.set s.k trade.qty).length = (s.openPrices.set s.k trade.price).length
    rw [List.length_set, List.length_set]
    exact sameLength
  · show s.o + 1 + news.length ≤ (s.openQtyIndices.set s.o s.k).length
    rw [List.length_set]
    omega

theorem Shows.cursor {slots news : List (Nat × Trade)} {openIdx : Nat} {lot : Trade}
    (h : Shows newQtyIndices newPrices s ((openIdx, lot) :: slots) news) :
    s.j < s.o ∧ s.openQtyIndices[s.j]? = some openIdx ∧
      (s.openQtyIndices.take s.o).drop (s.j + 1) = slots.map Prod.fst := by
  obtain ⟨first, rest⟩ := drop_succ_of_drop h.listed
  have inside : s.j < s.o := by
    by_contra beyond
    rw [List.getElem?_take_eq_none (Nat.not_lt.mp beyond)] at first
    cases first
  rw [List.getElem?_take_of_lt inside] at first
  exact ⟨inside, first, rest⟩

theorem Shows.no_slots {news : List (Nat × Trade)}
    (h : Shows newQtyIndices newPrices s [] news) : ¬ s.j < s.o := by
  have roomIndices := h.roomIndices
  have empty := List.drop_eq_nil_iff.mp h.listed
  rw [List.length_take] at empty
  omega

/-- A new trade larger than the lot at the cursor nets it away. -/
theorem Shows.close {slots news : List (Nat × Trade)} {openIdx newIdx : Nat} {lot trade : Trade}
    (h : Shows newQtyIndices newPrices s ((openIdx, lot) :: slots) ((newIdx, trade) :: news))
    (realized : ℚ) :
    Shows newQtyIndices newPrices
      { s with
        realized := realized
        openQtys := s.openQtys.set openIdx 0
        j := s.j + 1
        newQtys := s.newQtys.set newIdx (trade.qty + lot.qty) }
      slots ((newIdx, ⟨trade.qty + lot.qty, trade.price⟩) :: news) := by
  obtain ⟨inside, _, rest⟩ := h.cursor
  constructor
  · exact h.newListed
  · exact h.newReads.head_set _
  · exact inside
  · exact rest
  · exact h.openReads.tail_set 0
  · exact fun slot member => h.below slot (List.mem_cons_of_mem _ member)
  · intro idx nonzero
    have elsewhere : idx ≠ openIdx := by
      rintro rfl
      obtain ⟨qty, read, notZero⟩ := mem_nonzeroIndices.mp nonzero
      obtain ⟨bound, _⟩ := List.getElem?_eq_some_iff.mp h.openReads.head.1
      rw [List.getElem?_set_self bound] at read
      exact notZero (Option.some.inj read).symm
    have listed := h.others idx (mem_of_mem_nonzeroIndices_set nonzero elsewhere)
    rcases List.mem_cons.mp listed with here | later
    · exact absurd here elsewhere
    · exact later
  · show s.k + (news.length + 1) ≤ (s.openQtys.set openIdx 0).length
    rw [List.length_set]
    exact h.roomSlots
  · show (s.openQtys.set openIdx 0).length = s.openPrices.length
    rw [List.length_set]
    exact h.sameLength
  · exact h.roomIndices

/-- A new trade no larger than the lot at the cursor is used up; the cursor
stays, also when nothing of the lot is left. -/
theorem Shows.reduce {slots news : List (Nat × Trade)} {openIdx newIdx : Nat} {lot trade : Trade}
    (h : Shows newQtyIndices newPrices s ((openIdx, lot) :: slots) ((newIdx, trade) :: news))
    (realized : ℚ) :
    Shows newQtyIndices newPrices
      { s with
        realized := realized
        newQtys := s.newQtys.set newIdx 0
        i := s.i + 1
        openQtys := s.openQtys.set openIdx (lot.qty + trade.qty) }
      ((openIdx, ⟨lot.qty + trade.qty, lot.price⟩) :: slots) news := by
  have roomSlots := h.roomSlots
  have roomIndices := h.roomIndices
  rw [List.length_cons] at roomSlots roomIndices
  constructor
  · exact (drop_succ_of_drop h.newListed).2
  · exact h.newReads.tail_set 0
  · exact h.bounds
  · exact h.listed
  · exact h.openReads.head_set _
  · intro slot member
    rcases List.mem_cons.mp member with rfl | member
    · exact h.below (openIdx, lot) (List.mem_cons_self ..)
    · exact h.below slot (List.mem_cons_of_mem _ member)
  · intro idx nonzero
    by_cases here : idx = openIdx
    · rw [here]
      exact List.mem_cons_self ..
    · exact h.others idx (mem_of_mem_nonzeroIndices_set nonzero here)
  · show s.k + news.length ≤ (s.openQtys.set openIdx _).length
    rw [List.length_set]
    omega
  · show (s.openQtys.set openIdx _).length = s.openPrices.length
    rw [List.length_set]
    exact h.sameLength
  · show s.o + news.length ≤ s.openQtyIndices.length
    omega

end Iteration

/-- The loop walks the new trades over the lots its locals show. -/
theorem calcLoopOld_walks (newQtyIndices : List Nat) (newPrices : List ℚ) (fuel : Nat) :
    ∀ (s : Locals) (slots news : List (Nat × Trade)),
      Shows newQtyIndices newPrices s slots news → 2 * news.length + slots.length < fuel →
      ∃ final finalSlots, calcLoopOld newQtyIndices newPrices fuel s = some final ∧
        Shows newQtyIndices newPrices final finalSlots [] ∧
        finalSlots.map Prod.snd = (walkAll (slots.map Prod.snd) (news.map Prod.snd)).lots ∧
        final.realized = s.realized +
          profit (walkAll (slots.map Prod.snd) (news.map Prod.snd)).closed := by
  induction fuel with
  | zero => intro _ _ _ _ enough; omega
  | succ fuel ih =>
      intro s slots news shows_ enough
      rw [calcLoopOld]
      cases news with
      | nil =>
          have done := List.drop_eq_nil_iff.mp shows_.newListed
          rw [if_neg (by omega)]
          exact ⟨s, slots, rfl, shows_, rfl, by simp [walkAll]⟩
      | cons new news =>
          obtain ⟨newIdx, trade⟩ := new
          rw [List.length_cons] at enough
          obtain ⟨newListed, _⟩ := drop_succ_of_drop shows_.newListed
          obtain ⟨newQty, newPrice⟩ := shows_.newReads.head
          have more := (List.getElem?_eq_some_iff.mp newListed).1
          rw [if_pos more, iterate]
          dsimp only at newListed newQty newPrice
          simp only [newListed, newQty, newPrice, Option.bind_eq_bind, Option.bind_some]
          cases slots with
          | nil =>
              obtain ⟨s', appends, realized, shown⟩ := shows_.append
              obtain ⟨final, finalSlots, runs, shown', lots, total⟩ := ih s' _ _ shown
                (by simp; omega)
              rw [if_neg shows_.no_slots, appends, Option.bind_some]
              refine ⟨final, finalSlots, runs, shown', ?_, ?_⟩
              · simpa [walkAll, walk] using lots
              · simpa [walkAll, walk, realized] using total
          | cons slot slots =>
              obtain ⟨openIdx, lot⟩ := slot
              rw [List.length_cons] at enough
              obtain ⟨inside, openListed, _⟩ := shows_.cursor
              obtain ⟨openQty, openPrice⟩ := shows_.openReads.head
              dsimp only at openListed openQty openPrice
              simp only [if_pos inside, openListed, openQty, openPrice, Option.bind_some]
              by_cases same : copysign lot.qty = copysign trade.qty
              · obtain ⟨s', appends, realized, shown⟩ := shows_.append
                obtain ⟨final, finalSlots, runs, shown', lots, total⟩ := ih s' _ _ shown
                  (by simp; omega)
                rw [if_pos same, appends, Option.bind_some]
                refine ⟨final, finalSlots, runs, shown', ?_, ?_⟩
                · simpa [walkAll, walk, same] using lots
                · simpa [walkAll, walk, same, realized] using total
              · rw [if_neg same]
                by_cases larger : trade.qty.natAbs > lot.qty.natAbs
                · have shown := shows_.close (s.realized + lot.qty * (trade.price - lot.price))
                  obtain ⟨final, finalSlots, runs, shown', lots, total⟩ := ih _ _ _ shown
                    (by simp; omega)
                  rw [if_pos larger, Option.bind_some]
                  refine ⟨final, finalSlots, runs, shown', ?_, ?_⟩
                  · simpa [walkAll, walk, same, larger] using lots
                  · simpa [walkAll, walk, same, larger, add_assoc] using total
                · have shown := shows_.reduce (s.realized + trade.qty * (lot.price - trade.price))
                  obtain ⟨final, finalSlots, runs, shown', lots, total⟩ := ih _ _ _ shown
                    (by simp; omega)
                  rw [if_neg larger, Option.bind_some]
                  refine ⟨final, finalSlots, runs, shown', ?_, ?_⟩
                  · simpa [walkAll, walk, same, larger] using lots
                  · rw [total]
                    simp only [walkAll, walk, same, larger, List.map_cons, if_false, profit_append,
                      profit_cons, profit_nil, Int.cast_neg]
                    ring

/-- The mask reads off the nonzero lots at and behind the cursor. -/
theorem Shows.masked {newQtyIndices : List Nat} {newPrices : List ℚ} {s : Locals}
    {slots news : List (Nat × Trade)} (h : Shows newQtyIndices newPrices s slots news) :
    s.masked = (slots.map Prod.snd).filter fun lot => lot.qty ≠ 0 := by
  obtain ⟨entries, entriesRead, indices, entryLots⟩ := reads_nonzero h.sameLength
  have kept := h.openReads.filter fun slot => slot.2.qty ≠ 0
  have same : (slots.filter fun slot => slot.2.qty ≠ 0).map Prod.fst = entries.map Prod.fst := by
    refine kept.ordered.eq_of_mem_iff entriesRead.ordered fun idx => ?_
    rw [indices]
    constructor
    · intro member
      obtain ⟨slot, slotMember, rfl⟩ := List.mem_map.mp member
      obtain ⟨listed, nonzero⟩ := List.mem_filter.mp slotMember
      exact mem_nonzeroIndices.mpr ⟨_, (h.openReads.reads slot listed).1, by simpa using nonzero⟩
    · intro nonzero
      obtain ⟨slot, listed, rfl⟩ := List.mem_map.mp (h.others idx nonzero)
      obtain ⟨qty, read, notZero⟩ := mem_nonzeroIndices.mp nonzero
      rw [(h.openReads.reads slot listed).1] at read
      have qtyEq := Option.some.inj read
      exact List.mem_map_of_mem (List.mem_filter.mpr ⟨listed, by simpa [qtyEq] using notZero⟩)
  rw [Locals.masked, ← entryLots, ← kept.unique entriesRead same, List.filter_map]
  rfl

theorem start_shows (openQtys : List Int) (openPrices : List ℚ) (newQtys : List Int)
    (newPrices : List ℚ) (sameOpen : openQtys.length = openPrices.length)
    (sameNew : newQtys.length = newPrices.length) :
    ∃ slots news, Shows (nonzeroIndices newQtys) newPrices
        (start openQtys openPrices newQtys newPrices) slots news ∧
      slots.map Prod.snd = openLots openQtys openPrices ∧
      news.map Prod.snd = openLots newQtys newPrices ∧
      2 * news.length + slots.length < 2 * newQtys.length + openQtys.length + 1 := by
  have samePadded : (openQtys ++ List.replicate newQtys.length 0).length =
      (openPrices ++ List.replicate newPrices.length 0).length := by
    simp [sameOpen, sameNew]
  obtain ⟨slots, openReads, slotIndices, slotLots⟩ := reads_nonzero samePadded
  obtain ⟨news, newReads, newIndices, newLots⟩ := reads_nonzero sameNew
  rw [openLots_padded sameOpen] at slotLots
  have count : ∀ (qtys : List Int) (prices : List ℚ), qtys.length = prices.length →
      (openLots qtys prices).length ≤ qtys.length := by
    intro qtys prices same
    refine (List.length_filter_le _ _).trans ?_
    simp [lots, same]
  have fewSlots := count openQtys openPrices sameOpen
  have fewNews := count newQtys newPrices sameNew
  rw [← slotLots, List.length_map] at fewSlots
  rw [← newLots, List.length_map] at fewNews
  have indexCount : (nonzeroIndices (openQtys ++ List.replicate newQtys.length 0)).length =
      slots.length := by
    rw [← slotIndices, List.length_map]
  refine ⟨slots, news, ?_, slotLots, newLots, by omega⟩
  constructor
  · exact newIndices.symm
  · exact newReads
  · exact Nat.zero_le _
  · simp [start, slotIndices]
  · exact openReads
  · intro slot member
    have listed : slot.1 ∈ nonzeroIndices (openQtys ++ List.replicate newQtys.length 0) := by
      rw [← slotIndices]
      exact List.mem_map_of_mem member
    obtain ⟨qty, read, nonzero⟩ := mem_nonzeroIndices.mp listed
    show slot.1 < openQtys.length
    by_contra beyond
    rw [List.getElem?_append_right (Nat.not_lt.mp beyond)] at read
    have zero := List.eq_of_mem_replicate (List.mem_of_getElem? read)
    exact nonzero zero
  · intro idx nonzero
    rw [slotIndices]
    exact nonzero
  · show openQtys.length + news.length ≤ (openQtys ++ List.replicate newQtys.length 0).length
    rw [List.length_append, List.length_replicate]
    omega
  · exact samePadded
  · simp only [start, List.length_append, List.length_replicate, indexCount]
    omega

/-- The plain kernel's closed form. -/
theorem calcTradePnlOld_eq (openQtys : List Int) (openPrices : List ℚ) (newQtys : List Int)
    (newPrices : List ℚ) (multiplier : ℚ) (sameOpen : openQtys.length = openPrices.length)
    (sameNew : newQtys.length = newPrices.length) :
    calcTradePnlOld openQtys openPrices newQtys newPrices multiplier =
      let walked := walkAll (openLots openQtys openPrices) (openLots newQtys newPrices)
      let left := walked.lots.filter fun lot => lot.qty ≠ 0
      .ok ⟨left.map Lot.qty, left.map Lot.price, multiplier * profit walked.closed⟩ := by
  obtain ⟨slots, news, shown, slotLots, newLots, enough⟩ :=
    start_shows openQtys openPrices newQtys newPrices sameOpen sameNew
  obtain ⟨final, finalSlots, runs, finalShown, lots, realized⟩ :=
    calcLoopOld_walks _ _ _ _ slots news shown enough
  rw [slotLots, newLots] at lots realized
  have fresh : (start openQtys openPrices newQtys newPrices).realized = 0 := rfl
  rw [calcTradePnlOld, runs]
  simp only [finalShown.masked, lots, realized, fresh, zero_add, mul_comm multiplier]

end Gambit.PlainKernel
