import Gambit.Lib.OrderedDict
import Gambit.Lib.PythonLists

/-!
# Sparse iterations

`SparseIterations` and its buckets, whose remaining methods are those of
`MutableSequence`.  A call that has not come back after so many steps has no
result.
-/

set_option autoImplicit false

namespace Gambit.Iterations

open PythonLists

structure SparseIterations (α : Type) where
  size : Nat
  buckets : OrderedDict Nat (List α)

variable {α β : Type}

namespace SparseIterations

def new (size : Nat) : SparseIterations α := ⟨size, .empty⟩

def populatedCount (self : SparseIterations α) : Nat := self.buckets.items.length

/-- `_index` -/
def index (self : SparseIterations α) (index : Int) : Except ListError Nat :=
  let index := if index < 0 then index + self.size else index
  if ¬ (0 ≤ index ∧ index < self.size) then .error .indexError
  else .ok index.toNat

/-- `self._buckets.get(index, ())` -/
def stored (self : SparseIterations α) (index : Nat) : List α := (self.buckets.get? index).getD []

/-- `at` -/
def readAt (self : SparseIterations α) (index : Int) : Except ListError (List α) := do
  let index ← self.index index
  .ok (self.stored index)

def appendAt (self : SparseIterations α) (index : Int) (value : α) :
    Except ListError (SparseIterations α) := do
  let index ← self.index index
  match self.buckets.get? index with
  | none => .ok { self with buckets := self.buckets.set index ([] ++ [value]) }
  | some bucket => .ok { self with buckets := self.buckets.set index (bucket ++ [value]) }

/-- `_replace` -/
def replace (self : SparseIterations α) (index : Nat) (values : List α) : SparseIterations α :=
  if values = [] then { self with buckets := self.buckets.erase index }
  else { self with buckets := self.buckets.set index values }

end SparseIterations

/-- A call leaves the container also where it raises. -/
abbrev Call (α β : Type) := ExceptT ListError (StateT (SparseIterations α) Option) β

def Call.diverge : Call α β := fun _ => none

def Call.result (result : Except ListError β) : Call α β := fun self => some (result, self)

/-! ## Buckets -/

/-- What `extend` and slices are given: other values, or a bucket view. -/
inductive Source (α : Type) where
  | list (values : List α)
  | view (view : Nat)

/-! A `_Bucket` is its index in the container. -/

namespace Bucket

variable (bucket : Nat)

/-- `self._owner.at(self._index)` -/
def values : Call α (List α) := do
  let self ← get
  Call.result (self.readAt bucket)

def len : Call α Nat := do
  let values ← values bucket
  return values.length

def getItem (index : Int) : Call α α := do
  let values ← values bucket
  Call.result (PythonLists.getItem values index)

def getSlice (slice : Slice) : Call α (List α) := do
  let values ← values bucket
  Call.result (PythonLists.getSlice values slice)

/-- A copy is changed, and put in the place of the bucket. -/
def replaceBy (change : List α → Except ListError (List α)) : Call α Unit := do
  let values ← values bucket
  let values ← Call.result (change values)
  modify fun self => self.replace bucket values

def setItem (index : Int) (value : α) : Call α Unit :=
  replaceBy bucket fun values => PythonLists.setItem values index value

def setSlice (slice : Slice) (replacement : List α) : Call α Unit :=
  replaceBy bucket fun values => PythonLists.setSlice values slice replacement

def delItem (index : Int) : Call α Unit :=
  replaceBy bucket fun values => PythonLists.delItem values index

def delSlice (slice : Slice) : Call α Unit :=
  replaceBy bucket fun values => PythonLists.delSlice values slice

def insert (index : Int) (value : α) : Call α Unit :=
  replaceBy bucket fun values => .ok (insertAt values index value)

def append (value : α) : Call α Unit := do
  let self ← get
  let self ← Call.result (self.appendAt bucket value)
  set self

/-! ## Methods of `MutableSequence` -/

def pop (index : Int) : Call α α := do
  let value ← getItem bucket index
  delItem bucket index
  return value

/-- `while True: self.pop()` -/
def popForever : Nat → Call α Unit
  | 0 => Call.diverge
  | fuel + 1 => do
      let _ ← pop bucket (-1)
      popForever fuel

def clear (fuel : Nat) : Call α Unit :=
  tryCatch (popForever bucket fuel) fun
    | .indexError => return ()
    | error => throw error

/-- `self[i], self[n-i-1] = self[n-i-1], self[i]` -/
def swap (length i : Nat) : Call α Unit := do
  let last ← getItem bucket (length - i - 1)
  let first ← getItem bucket i
  setItem bucket i last
  setItem bucket (length - i - 1) first

def reverse : Call α Unit := do
  let length ← len bucket
  (List.range (length / 2)).forM (swap bucket length)

def extendValues (values : List α) : Call α Unit := values.forM (append bucket)

/-- The iterator of a bucket reads the list that is stored, which grows when it is appended to. -/
def extendLive (source : Nat) : Nat → Nat → Call α Unit
  | 0, _ => Call.diverge
  | fuel + 1, position => do
      let self ← get
      match (self.stored source)[position]? with
      | none => return ()
      | some value =>
          append bucket value
          extendLive source fuel (position + 1)

/-- A view that is the bucket view itself is copied first. -/
def extendView (itself : Bool) (source : Nat) (fuel : Nat) : Call α Unit := do
  if itself then
    let values ← values source
    extendValues bucket values
  else extendLive bucket source fuel 0

end Bucket

end Gambit.Iterations
