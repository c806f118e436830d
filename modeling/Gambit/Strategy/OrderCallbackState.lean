import Gambit.PqTypes

/-!
# Order objects and the guards around callbacks

order_callback_state.py.  Orders are shared objects; `Heap` holds their
contents.  User code writes any field of the orders it may reach and makes new
ones; an object keeps its class.
-/

set_option autoImplicit false

namespace Gambit

structure Heap where
  size : Nat
  order : OrderId → Order

namespace Heap

def set (id : OrderId) (order : Order) (self : Heap) : Heap :=
  { self with order := Function.update self.order id order }

def alloc (order : Order) (self : Heap) : Heap × OrderId :=
  (⟨self.size + 1, Function.update self.order self.size order⟩, self.size)

end Heap

def OrderKind.sameClass : OrderKind → OrderKind → Bool
  | .market, .market => true
  | .limit _, .limit _ => true
  | .stopLimit _ _, .stopLimit _ _ => true
  | .vwap _ _, .vwap _ _ => true
  | .roll _ _ _, .roll _ _ _ => true
  | _, _ => false

/-- The orders after a callback that may write the `writable` ones and leaves
`left` behind. -/
def Heap.written (writable : OrderId → Bool) (self left : Heap) : Heap where
  size := max self.size left.size
  order := fun id =>
    if id < self.size ∧
        ¬ (writable id ∧ (self.order id).kind.sameClass (left.order id).kind) then
      self.order id
    else left.order id

structure OrderCallbackState where
  order : OrderId
  contract : Contract
  timestamp : Timestamp
  timeInForce : TimeInForce
  qty : ℚ
  status : OrderStatus
deriving DecidableEq

namespace OrderCallbackState

open Raising

def capture (heap : Heap) (order : OrderId) : OrderCallbackState :=
  let content := heap.order order
  ⟨order, content.contract, content.timestamp, content.timeInForce, content.qty, content.status⟩

def validateIdentity (heap : Heap) (self : OrderCallbackState) : Except Exn Unit :=
  let order := heap.order self.order
  if order.contract ≠ self.contract then
    .error (.valueError "callback changed submitted order contract")
  else if order.timestamp ≠ self.timestamp then
    .error (.valueError "callback changed submitted order timestamp")
  else if order.timeInForce ≠ self.timeInForce then
    .error (.valueError "callback changed submitted order time_in_force")
  else .ok ()

def validateUnchanged (allowCancel : Bool) (heap : Heap) (self : OrderCallbackState) :
    Except Exn Unit := do
  self.validateIdentity heap
  let order := heap.order self.order
  if order.qty ≠ self.qty then
    .error (.valueError "callback changed protected order quantity")
  else if order.status = self.status then .ok ()
  else if allowCancel ∧ self.status.isOpen ∧
      (order.status = .cancelRequested ∨ order.status = .cancelled) then .ok ()
  else .error (.valueError "callback changed protected order status")

def restore (heap : Heap) (self : OrderCallbackState) : Heap :=
  heap.set self.order { heap.order self.order with
    contract := self.contract
    timestamp := self.timestamp
    timeInForce := self.timeInForce
    qty := self.qty
    status := self.status }

def restoreAll (states : List OrderCallbackState) (heap : Heap) : Heap :=
  states.foldl restore heap

/-! ## What the guards establish -/

variable {before after : Heap} {order : OrderId}

theorem capture_eq_iff : capture after order = capture before order ↔
    (after.order order).contract = (before.order order).contract ∧
      (after.order order).timestamp = (before.order order).timestamp ∧
      (after.order order).timeInForce = (before.order order).timeInForce ∧
      (after.order order).qty = (before.order order).qty ∧
      (after.order order).status = (before.order order).status := by
  simp [capture]

theorem capture_congr (same : after.order order = before.order order) :
    capture after order = capture before order := by
  rw [capture, capture, same]

/-- The fields no callback may change. -/
structure SameIdentity (before after : Order) : Prop where
  contract : after.contract = before.contract
  timestamp : after.timestamp = before.timestamp
  timeInForce : after.timeInForce = before.timeInForce

theorem SameIdentity.refl (order : Order) : SameIdentity order order := ⟨rfl, rfl, rfl⟩

theorem SameIdentity.trans {a b c : Order} (first : SameIdentity a b) (second : SameIdentity b c) :
    SameIdentity a c :=
  ⟨second.contract.trans first.contract, second.timestamp.trans first.timestamp,
    second.timeInForce.trans first.timeInForce⟩

theorem sameIdentity_cancel (order : Order) : SameIdentity order order.cancel :=
  ⟨cancel_contract order, cancel_timestamp order, cancel_timeInForce order⟩

theorem sameIdentity_of_capture (same : capture after order = capture before order) :
    SameIdentity (before.order order) (after.order order) := by
  obtain ⟨contract, timestamp, timeInForce, _⟩ := capture_eq_iff.mp same
  exact ⟨contract, timestamp, timeInForce⟩

theorem validateIdentity_ok :
    (capture before order).validateIdentity after = .ok () ↔
      SameIdentity (before.order order) (after.order order) := by
  simp only [validateIdentity, refuse_ok, not_not, and_true]
  constructor
  · rintro ⟨contract, timestamp, timeInForce⟩
    exact ⟨contract, timestamp, timeInForce⟩
  · rintro ⟨contract, timestamp, timeInForce⟩
    exact ⟨contract, timestamp, timeInForce⟩

theorem validateUnchanged_ok {allowCancel : Bool} :
    (capture before order).validateUnchanged allowCancel after = .ok () ↔
      SameIdentity (before.order order) (after.order order) ∧
        (after.order order).qty = (before.order order).qty ∧
        ((after.order order).status = (before.order order).status ∨
          allowCancel ∧ (before.order order).isOpen ∧
            ((after.order order).status = .cancelRequested ∨
              (after.order order).status = .cancelled)) := by
  simp only [validateUnchanged, bind_ok, refuse_ok, not_not]
  constructor
  · rintro ⟨_, valid, qty, checks⟩
    refine ⟨validateIdentity_ok.mp valid, qty, ?_⟩
    by_cases same : (after.order order).status = (before.order order).status
    · exact Or.inl same
    · rw [if_neg (by exact same)] at checks
      split at checks
      · rename_i cancelled
        exact Or.inr cancelled
      · cases checks
  · rintro ⟨identity, qty, status⟩
    refine ⟨(), validateIdentity_ok.mpr identity, qty, ?_⟩
    by_cases same : (after.order order).status = (before.order order).status
    · exact if_pos same
    · rw [if_neg (by exact same)]
      exact if_pos (status.resolve_left same)

theorem validateUnchanged_strict :
    (capture before order).validateUnchanged false after = .ok () ↔
      capture after order = capture before order := by
  rw [validateUnchanged_ok, capture_eq_iff]
  constructor
  · rintro ⟨identity, qty, status | ⟨absurd, _⟩⟩
    · exact ⟨identity.contract, identity.timestamp, identity.timeInForce, qty, status⟩
    · cases absurd
  · rintro ⟨contract, timestamp, timeInForce, qty, status⟩
    exact ⟨⟨contract, timestamp, timeInForce⟩, qty, Or.inl status⟩

/-! ## Restoring -/

theorem restore_order_of_ne {heap : Heap} {state : OrderCallbackState} (other : order ≠ state.order) :
    (state.restore heap).order order = heap.order order :=
  Function.update_of_ne other _ _

theorem capture_restore (heap : Heap) :
    capture ((capture before order).restore heap) order = capture before order := by
  simp [capture, restore, Heap.set]

theorem restoreAll_of_not_mem {orders : List OrderId} (absent : order ∉ orders) :
    ∀ heap : Heap, (restoreAll (orders.map (capture before)) heap).order order = heap.order order := by
  induction orders with
  | nil => exact fun _ => rfl
  | cons first orders ih =>
      intro heap
      obtain ⟨other, absentRest⟩ := not_or.mp (mt List.mem_cons.mpr absent)
      rw [List.map_cons, restoreAll, List.foldl_cons, ← restoreAll, ih absentRest]
      exact restore_order_of_ne other

/-- Restoring brings every captured order's protected fields back, whatever was
written to the heap in between. -/
theorem capture_restoreAll {orders : List OrderId} (member : order ∈ orders) :
    ∀ heap : Heap, capture (restoreAll (orders.map (capture before)) heap) order =
      capture before order := by
  induction orders with
  | nil => cases member
  | cons first orders ih =>
      intro heap
      rw [List.map_cons, restoreAll, List.foldl_cons, ← restoreAll]
      by_cases later : order ∈ orders
      · exact ih later _
      · obtain rfl : order = first := (List.mem_cons.mp member).resolve_right later
        rw [capture_congr (restoreAll_of_not_mem later _)]
        exact capture_restore heap

end OrderCallbackState

/-! ## What a callback leaves alone -/

theorem Heap.written_of_not_writable {writable : OrderId → Bool} {left heap : Heap} {id : OrderId}
    (inside : id < heap.size) (guarded : writable id = false) :
    (heap.written writable left).order id = heap.order id := by
  simp [Heap.written, inside, guarded]

theorem sameClass_roll {a b : Order} (same : a.kind.sameClass b.kind) (roll : b.isRoll) :
    a.isRoll := by
  obtain ⟨reopenContract, closeQty, reopenQty, kind⟩ := roll
  rw [kind] at same
  cases own : a.kind with
  | roll _ _ _ => exact ⟨_, _, _, own⟩
  | market | limit _ | stopLimit _ _ | vwap _ _ =>
      rw [own] at same
      cases same

/-- Orders are made, and none becomes a roll command. -/
structure Grown (before after : Heap) : Prop where
  size : before.size ≤ after.size
  rolls : ∀ id < before.size, (after.order id).isRoll → (before.order id).isRoll

theorem Grown.refl (heap : Heap) : Grown heap heap := ⟨Nat.le_refl _, fun _ _ roll => roll⟩

theorem Grown.trans {a b c : Heap} (first : Grown a b) (second : Grown b c) : Grown a c :=
  ⟨first.size.trans second.size, fun id inside roll =>
    first.rolls id inside (second.rolls id (inside.trans_le first.size) roll)⟩

theorem grown_written (writable : OrderId → Bool) (heap left : Heap) :
    Grown heap (heap.written writable left) where
  size := Nat.le_max_left ..
  rolls := fun id inside roll => by
    simp only [Heap.written] at roll
    by_cases kept : writable id ∧ (heap.order id).kind.sameClass (left.order id).kind
    · rw [if_neg (by simp [kept])] at roll
      exact sameClass_roll kept.2 roll
    · rwa [if_pos ⟨inside, kept⟩] at roll

theorem Heap.set_same (heap : Heap) (id : OrderId) (order : Order) :
    (heap.set id order).order id = order :=
  Function.update_self ..

theorem Heap.set_other {heap : Heap} {id other : OrderId} {order : Order} (ne : other ≠ id) :
    (heap.set id order).order other = heap.order other :=
  Function.update_of_ne ne ..

theorem grown_set {heap : Heap} {id : OrderId} {order : Order}
    (same : order.kind = (heap.order id).kind) : Grown heap (heap.set id order) where
  size := Nat.le_refl _
  rolls := fun other _ roll => by
    by_cases here : other = id
    · subst here
      rw [Heap.set_same] at roll
      exact (isRoll_congr same).mp roll
    · rwa [Heap.set_other here] at roll

theorem grown_restoreAll (states : List OrderCallbackState) :
    ∀ heap : Heap, Grown heap (OrderCallbackState.restoreAll states heap) := by
  induction states with
  | nil => exact .refl
  | cons state states ih =>
      intro heap
      have first : Grown heap (state.restore heap) := grown_set rfl
      exact first.trans (ih (state.restore heap))

end Gambit
