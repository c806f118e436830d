import Gambit.Strategy.Invariant
import Gambit.Strategy.SimpleMarketSimulator

/-!
# Roll ids

A roll id names the number of orders submitted so far and the place of the roll
command in its batch.  It marks exactly two of the orders the engine knows, as
long as user code leaves the roll properties alone.
-/

set_option autoImplicit false

namespace Gambit

open Raising Traces OrderCallbackState

/-! ## The text of an id -/

theorem append_separator {α : Type} {separator : α} {xs ys us vs : List α}
    (left : separator ∉ xs) (right : separator ∉ ys)
    (same : xs ++ separator :: us = ys ++ separator :: vs) : xs = ys ∧ us = vs := by
  induction xs generalizing ys with
  | nil =>
      cases ys with
      | nil => exact ⟨rfl, (List.cons.inj same).2⟩
      | cons y ys =>
          obtain ⟨rfl, _⟩ := List.cons.inj same
          exact absurd (List.mem_cons_self ..) right
  | cons x xs ih =>
      cases ys with
      | nil =>
          obtain ⟨rfl, _⟩ := List.cons.inj same
          exact absurd (List.mem_cons_self ..) left
      | cons y ys =>
          obtain ⟨rfl, tails⟩ := List.cons.inj same
          obtain ⟨rfl, rest⟩ := ih (fun listed => left (List.mem_cons_of_mem _ listed))
            (fun listed => right (List.mem_cons_of_mem _ listed)) tails
          exact ⟨rfl, rest⟩

theorem toDigits_injective {m n : Nat} (same : Nat.toDigits 10 m = Nat.toDigits 10 n) : m = n := by
  have values := congrArg (Nat.ofDigitChars 10 · 0) same
  simpa [Nat.ofDigitChars_ten_toDigits] using values

theorem colon_not_mem_toDigits (n : Nat) : ':' ∉ Nat.toDigits 10 n := fun listed => by
  have digit := Nat.isDigit_of_mem_toDigits (by decide) (by decide) listed
  revert digit
  decide

/-- The id of the roll submitted at place `index` when `submitted` orders are known. -/
def rollIdText (submitted index : Nat) : String :=
  "strategy-roll:" ++ toString submitted ++ ":" ++ toString index

theorem rollIdText_injective {m n j k : Nat} (same : rollIdText m j = rollIdText n k) :
    m = n ∧ j = k := by
  have chars := congrArg String.toList same
  simp only [rollIdText, String.toList_append, List.append_assoc, Nat.toString_eq_repr,
    Nat.toList_repr] at chars
  obtain ⟨first, second⟩ := append_separator (colon_not_mem_toDigits m) (colon_not_mem_toDigits n)
    (List.append_cancel_left chars)
  exact ⟨toDigits_injective first, toDigits_injective second⟩

/-! ## The legs of a roll -/

/-- Among `ids` two adjacent orders are the legs of the roll and no other has its id. -/
structure Legs (order : OrderId → Order) (ids : List OrderId) (rollId : String)
    (close : OrderId) : Prop where
  closeListed : close ∈ ids
  reopenListed : close + 1 ∈ ids
  closeId : (order close).rollId = some rollId
  reopenId : (order (close + 1)).rollId = some rollId
  closeLeg : (order close).rollLeg = some "close"
  reopenLeg : (order (close + 1)).rollLeg = some "reopen"
  only : ∀ id ∈ ids, (order id).rollId = some rollId → id = close ∨ id = close + 1

/-- Every order with a roll id is a leg, of a roll submitted as `level` allows. -/
def Paired (level : Nat → Prop) (order : OrderId → Order) (ids : List OrderId) : Prop :=
  ∀ id ∈ ids, ∀ rollId, (order id).rollId = some rollId →
    ∃ submitted index close, level submitted ∧ rollId = rollIdText submitted index ∧
      Legs order ids rollId close ∧ (id = close ∨ id = close + 1)

theorem Paired.congr {level : Nat → Prop} {order order' : OrderId → Order} {ids : List OrderId}
    (paired : Paired level order ids) (same : ∀ id ∈ ids, SameRoll (order id) (order' id)) :
    Paired level order' ids := by
  intro id member rollId rolled
  rw [(same id member).rollId] at rolled
  obtain ⟨submitted, index, close, allowed, text, legs, own⟩ := paired id member rollId rolled
  have first := same close legs.closeListed
  have second := same (close + 1) legs.reopenListed
  refine ⟨submitted, index, close, allowed, text, ⟨legs.closeListed, legs.reopenListed,
    first.rollId.trans legs.closeId, second.rollId.trans legs.reopenId,
    first.rollLeg.trans legs.closeLeg, second.rollLeg.trans legs.reopenLeg,
    fun other listed rolled => ?_⟩, own⟩
  rw [(same other listed).rollId] at rolled
  exact legs.only other listed rolled

theorem Paired.nil (level : Nat → Prop) (order : OrderId → Order) : Paired level order [] :=
  fun _ member => by cases member

/-- Legs stay alone with their id when orders of other levels join. -/
theorem Legs.append {order : OrderId → Order} {ids more : List OrderId} {rollId : String}
    {close : OrderId} (legs : Legs order ids rollId close)
    (apart : ∀ id ∈ more, (order id).rollId ≠ some rollId) :
    Legs order (ids ++ more) rollId close :=
  { legs with
    closeListed := List.mem_append_left _ legs.closeListed
    reopenListed := List.mem_append_left _ legs.reopenListed
    only := fun id member rolled => by
      rcases List.mem_append.mp member with old | new
      · exact legs.only id old rolled
      · exact absurd rolled (apart id new) }

theorem Legs.perm {order : OrderId → Order} {ids ids' : List OrderId} {rollId : String}
    {close : OrderId} (legs : Legs order ids rollId close) (same : ∀ id, id ∈ ids' ↔ id ∈ ids) :
    Legs order ids' rollId close :=
  { legs with
    closeListed := (same _).mpr legs.closeListed
    reopenListed := (same _).mpr legs.reopenListed
    only := fun id member => legs.only id ((same id).mp member) }

theorem Paired.apart {high : Nat → Prop} {order : OrderId → Order} {more : List OrderId}
    {rollId : String} {submitted index : Nat} (paired : Paired high order more)
    (text : rollId = rollIdText submitted index) (other : ∀ n, high n → n ≠ submitted) :
    ∀ id ∈ more, (order id).rollId ≠ some rollId := by
  intro id member rolled
  obtain ⟨n, _, _, allowed, text', _⟩ := paired id member rollId rolled
  exact other n allowed (rollIdText_injective (text'.symm.trans text)).1

theorem Paired.append {low high level : Nat → Prop} {order : OrderId → Order}
    {ids more : List OrderId} (first : Paired low order ids) (second : Paired high order more)
    (apart : ∀ m n, low m → high n → m ≠ n) (lower : ∀ m, low m → level m)
    (upper : more ≠ [] → ∀ n, high n → level n) : Paired level order (ids ++ more) := by
  intro id member rollId rolled
  rcases List.mem_append.mp member with old | new
  · obtain ⟨m, index, close, allowed, text, legs, own⟩ := first id old rollId rolled
    exact ⟨m, index, close, lower m allowed, text,
      legs.append (second.apart text fun n high same =>
        apart m n allowed high same.symm), own⟩
  · obtain ⟨n, index, close, allowed, text, legs, own⟩ := second id new rollId rolled
    refine ⟨n, index, close, upper (List.ne_nil_of_mem new) n allowed, text, ?_, own⟩
    have alone := legs.append (first.apart text fun m low => apart m n low allowed)
    exact alone.perm fun other => by rw [List.mem_append, List.mem_append, or_comm]

/-! ## The orders of a rule -/

theorem legs_rolled {order : Order} {reopenContract : Contract} {closeQty reopenQty : ℚ}
    {rollId : String} {close reopen : Order}
    (expanded : order.legs reopenContract closeQty reopenQty rollId = .ok (close, reopen)) :
    (close.rollId = some rollId ∧ close.rollLeg = some "close") ∧
      reopen.rollId = some rollId ∧ reopen.rollLeg = some "reopen" := by
  obtain ⟨_, _, expanded⟩ := bind_ok.mp expanded
  obtain ⟨_, expanded⟩ := refuse_ok.mp expanded
  obtain ⟨_, expanded⟩ := refuse_ok.mp expanded
  cases expanded
  exact ⟨⟨rfl, rfl⟩, rfl, rfl⟩

/-- The roll ids in a batch after `count` submissions; only new orders have one. -/
def RuleBatch.Rolled (submitted : Nat) (heap : Heap) (count : Nat) (batch : RuleBatch) : Prop :=
  ∀ id ∈ batch.orders, ∀ rollId, (batch.heap.order id).rollId = some rollId →
    heap.size ≤ id ∧ ∃ index close, index < count ∧ rollId = rollIdText submitted index ∧
      Legs batch.heap.order batch.orders rollId close ∧ (id = close ∨ id = close + 1)

section

variable {setup : AccountSetup} {contractGroup : String} {now : Timestamp} {submitted : Nat}
  {pendingOrders : List OrderId} {heap : Heap}

/-- Orders without an earlier id join a batch. -/
theorem RuleBatch.Rolled.append {count : Nat} {batch : RuleBatch} {seen legs : List OrderId}
    {heap' : Heap} (rolled : batch.Rolled submitted heap count)
    (kept : ∀ id ∈ batch.orders, heap'.order id = batch.heap.order id)
    (new : ∀ id ∈ legs, ∀ rollId, (heap'.order id).rollId = some rollId →
      heap.size ≤ id ∧ rollId = rollIdText submitted count ∧ ∃ close,
        Legs heap'.order legs rollId close ∧ (id = close ∨ id = close + 1)) :
    (RuleBatch.mk heap' seen (batch.orders ++ legs)).Rolled submitted heap (count + 1) := by
  intro id member rollId marked
  dsimp only at member marked ⊢
  rcases List.mem_append.mp member with old | fresh
  · rw [kept id old] at marked
    obtain ⟨allocated, index, close, earlier, text, legs', own⟩ := rolled id old rollId marked
    refine ⟨allocated, index, close, by omega, text, ?_, own⟩
    have moved : Legs heap'.order batch.orders rollId close := by
      refine ⟨legs'.closeListed, legs'.reopenListed, ?_, ?_, ?_, ?_, fun other listed marked => ?_⟩
      · rw [kept _ legs'.closeListed]
        exact legs'.closeId
      · rw [kept _ legs'.reopenListed]
        exact legs'.reopenId
      · rw [kept _ legs'.closeListed]
        exact legs'.closeLeg
      · rw [kept _ legs'.reopenListed]
        exact legs'.reopenLeg
      · rw [kept other listed] at marked
        exact legs'.only other listed marked
    refine moved.append fun other listed marked => ?_
    obtain ⟨_, text', _⟩ := new other listed rollId marked
    have same := (rollIdText_injective (text.symm.trans text')).2
    omega
  · obtain ⟨allocated, text, close, legs', own⟩ := new id fresh rollId marked
    refine ⟨allocated, count, close, by omega, text, ?_, own⟩
    refine (legs'.append fun other listed marked => ?_).perm fun other => by
      rw [List.mem_append, List.mem_append, or_comm]
    rw [kept other listed] at marked
    obtain ⟨_, index, _, earlier, text', _⟩ := rolled other listed rollId marked
    have same := (rollIdText_injective (text.symm.trans text')).2
    omega

theorem validateRuleOrder_rolled {done : List (Option OrderId)} {before after : RuleBatch}
    {submission : Option OrderId × Nat}
    (built : before.Built setup contractGroup now pendingOrders heap done)
    (rolled : before.Rolled submitted heap submission.2)
    (unmarked : ∀ id ∈ submission.1, (heap.order id).rollId = none)
    (accepted : validateRuleOrder setup contractGroup now ("strategy-roll:" ++ toString submitted)
      heap.size before submission = .ok after) :
    after.Rolled submitted heap (submission.2 + 1) := by
  obtain ⟨item, index⟩ := submission
  unfold validateRuleOrder at accepted
  cases item with
  | none => cases accepted
  | some id =>
      by_cases inside : id < heap.size
      swap
      · simp [Option.filter, inside] at accepted
      simp only [Option.filter_some_pos, inside, decide_true] at accepted
      obtain ⟨_, accepted⟩ := refuse_ok.mp accepted
      obtain ⟨_, _, accepted⟩ := bind_ok.mp accepted
      obtain ⟨_, accepted⟩ := refuse_ok.mp accepted
      obtain ⟨_, accepted⟩ := refuse_ok.mp accepted
      obtain ⟨_, accepted⟩ := refuse_ok.mp accepted
      obtain ⟨_, _, accepted⟩ := bind_ok.mp accepted
      obtain ⟨⟨heap', legs⟩, expanded, accepted⟩ := bind_ok.mp accepted
      cases accepted
      rcases expandOrder_ok expanded with ⟨_, rfl, rfl⟩ | ⟨_, _, _, _, close, reopen, _, made, rfl, rfl⟩
      · refine rolled.append (fun _ _ => rfl) fun other listed rollId marked => ?_
        rw [List.mem_singleton.mp listed, built.kept id inside, unmarked id rfl] at marked
        cases marked
      · obtain ⟨⟨closeId, closeLeg⟩, reopenId, reopenLeg⟩ := legs_rolled made
        have closeKept : ((before.heap.alloc close).1.alloc reopen).1.order before.heap.size = close := by
          rw [alloc_order_of_lt (Nat.lt_succ_self _), alloc_order_new]
        have reopenKept :
            ((before.heap.alloc close).1.alloc reopen).1.order (before.heap.size + 1) = reopen :=
          alloc_order_new reopen
        have legCases : ∀ leg ∈ [before.heap.size, before.heap.size + 1],
            leg = before.heap.size ∨ leg = before.heap.size + 1 := by simp
        refine rolled.append (fun other listed => ?_) fun leg listed rollId marked => ?_
        · have allocated := built.allocated other listed
          rw [alloc_order_of_lt (Nat.lt_succ_of_lt allocated), alloc_order_of_lt allocated]
        · have text : rollId = rollIdText submitted index := by
            rcases legCases leg listed with rfl | rfl
            · rw [closeKept, closeId] at marked
              exact (Option.some.inj marked).symm
            · rw [reopenKept, reopenId] at marked
              exact (Option.some.inj marked).symm
          have allocated : heap.size ≤ leg := by
            have grows := built.grows
            rcases legCases leg listed with rfl | rfl
            · exact grows
            · exact grows.trans (Nat.le_succ _)
          subst text
          refine ⟨allocated, rfl, before.heap.size, ⟨by simp, by simp, ?_, ?_, ?_, ?_,
            fun other listed _ => legCases other listed⟩, legCases leg listed⟩
          · rw [closeKept]
            exact closeId
          · rw [reopenKept]
            exact reopenId
          · rw [closeKept]
            exact closeLeg
          · rw [reopenKept]
            exact reopenLeg

/-- Of the orders a batch leaves, those with a roll id are new and come in pairs. -/
theorem validateRuleOrders_rolled {items : List (Option OrderId)} {heap' : Heap}
    {orders : List OrderId} (unmarked : ∀ id, some id ∈ items → (heap.order id).rollId = none)
    (accepted : validateRuleOrders setup contractGroup now pendingOrders
      ("strategy-roll:" ++ toString submitted) (.sequence items) heap = .ok (heap', orders)) :
    Paired (· = submitted) heap'.order orders ∧
      ∀ id ∈ orders, (heap'.order id).rollId ≠ none → heap.size ≤ id := by
  obtain ⟨batch, ran, accepted⟩ := bind_ok.mp accepted
  cases accepted
  have loop : batch.Built setup contractGroup now pendingOrders heap (items.zipIdx.map Prod.fst) ∧
      batch.Rolled submitted heap items.zipIdx.length := by
    refine foldlM_ok (P := fun done (batch : RuleBatch) =>
      batch.Built setup contractGroup now pendingOrders heap (done.map Prod.fst) ∧
        batch.Rolled submitted heap done.length) ?_ ?_ ran
    · rintro done submission before after inside ⟨built, rolled⟩ step
      have at_end : items.zipIdx[done.length]? = some submission := by
        obtain ⟨rest, whole⟩ := inside
        rw [← whole, List.append_assoc, List.getElem?_append_right (le_refl _), Nat.sub_self]
        rfl
      rw [List.getElem?_zipIdx] at at_end
      obtain ⟨item, at_item, own⟩ := Option.map_eq_some_iff.mp at_end
      have index : submission.2 = done.length := by
        rw [← own]
        exact Nat.zero_add _
      rw [List.map_append, List.length_append]
      refine ⟨validateRuleOrder_built built step, ?_⟩
      rw [← index] at rolled
      have next := validateRuleOrder_rolled built rolled (fun id returned => ?_) step
      · rwa [index] at next
      · rw [← own] at returned
        obtain rfl : item = some id := returned
        exact unmarked id (List.mem_of_getElem? at_item)
    · refine ⟨⟨le_refl _, fun _ _ => rfl, fun id known => ?_, .nil, ?_, ?_, ?_, ?_⟩, ?_⟩
      · exact known.resolve_right fun listed => by cases listed
      all_goals exact fun _ member => by cases member
  refine ⟨fun id member rollId marked => ?_, fun id member marked => ?_⟩
  · obtain ⟨_, index, close, _, text, legs, own⟩ := loop.2 id member rollId marked
    exact ⟨submitted, index, close, rfl, text, legs, own⟩
  · obtain ⟨rollId, marked⟩ := Option.ne_none_iff_exists'.mp marked
    exact (loop.2 id member rollId marked).1

end

end Gambit
