import Gambit.Iterations.SparseIterations

/-!
# Sparse iterations and lists of lists

A program reads and changes the container through indices and through bucket
views it keeps; the same program on a list of lists sees the same.
-/

set_option autoImplicit false

namespace Gambit.Iterations

open PythonLists

variable {α : Type}

inductive BucketOperation (α : Type) where
  | len
  | iterate
  | getItem (index : Int)
  | getSlice (slice : Slice)
  | equals (other : Source α)
  | append (value : α)
  | insert (index : Int) (value : α)
  | extend (values : Source α)
  | setItem (index : Int) (value : α)
  | setSlice (slice : Slice) (values : Source α)
  | delItem (index : Int)
  | delSlice (slice : Slice)
  | pop (index : Int)
  | clear
  | reverse

/-- Views are numbered in the order in which they were made. -/
inductive Operation (α : Type) where
  | len
  | populatedCount
  | getItem (index : Int)
  | getSlice (slice : Slice)
  | iterate
  | readAt (index : Int)
  | appendAt (index : Int) (value : α)
  | bucket (view : Nat) (operation : BucketOperation α)

inductive Observation (α : Type) where
  | done
  | number (number : Nat)
  | value (value : α)
  | values (values : List α)
  | flag (flag : Bool)
  /-- So many new views. -/
  | views (count : Nat)
  /-- The program has no such view. -/
  | noView

/-! ## On the container -/

structure World (α : Type) where
  container : SparseIterations α
  views : List Nat

def World.new (size : Nat) : World α := ⟨.new size, []⟩

/-- The values of a source, read where it is a view. -/
def Source.read (views : List Nat) : Source α → Option (Call α (List α))
  | .list values => some (pure values)
  | .view other => views[other]?.map Bucket.values

section Perform

variable [BEq α]

/-- A method of the view with this number. -/
def BucketOperation.call (views : List Nat) (view : Nat) (bucket : Nat) (fuel : Nat) :
    BucketOperation α → Call α (Observation α)
  | .len => return .number (← Bucket.len bucket)
  | .iterate => return .values (← Bucket.values bucket)
  | .getItem index => return .value (← Bucket.getItem bucket index)
  | .getSlice slice => return .values (← Bucket.getSlice bucket slice)
  | .equals other =>
      match other.read views with
      | none => return .noView
      | some read => do
          let values ← Bucket.values bucket
          let others ← read
          return .flag (values == others)
  | .append value => do
      Bucket.append bucket value
      return .done
  | .insert index value => do
      Bucket.insert bucket index value
      return .done
  | .extend (.list values) => do
      Bucket.extendValues bucket values
      return .done
  | .extend (.view other) =>
      match views[other]? with
      | none => return .noView
      | some source => do
          Bucket.extendView bucket (other = view) source fuel
          return .done
  | .setItem index value => do
      Bucket.setItem bucket index value
      return .done
  | .setSlice slice replacement =>
      match replacement.read views with
      | none => return .noView
      | some read => do
          let replacement ← read
          Bucket.setSlice bucket slice replacement
          return .done
  | .delItem index => do
      Bucket.delItem bucket index
      return .done
  | .delSlice slice => do
      Bucket.delSlice bucket slice
      return .done
  | .pop index => return .value (← Bucket.pop bucket index)
  | .clear => do
      Bucket.clear bucket fuel
      return .done
  | .reverse => do
      Bucket.reverse bucket
      return .done

/-- `Sequence.__iter__`: `self[0]`, `self[1]`, ... up to the `IndexError`. -/
def SparseIterations.iterate (self : SparseIterations α) : Nat → Int → Option (List Nat)
  | 0, _ => none
  | fuel + 1, index =>
      match self.index index with
      | .error _ => some []
      | .ok bucket => (self.iterate fuel (index + 1)).map (bucket :: ·)

/-- New views, or what was raised. -/
def World.viewed (world : World α) : Except ListError (List Nat) →
    Except ListError (Observation α) × World α
  | .ok buckets => (.ok (.views buckets.length), { world with views := world.views ++ buckets })
  | .error error => (.error error, world)

def World.perform (fuel : Nat) (world : World α) :
    Operation α → Option (Except ListError (Observation α) × World α)
  | .len => some (.ok (.number world.container.size), world)
  | .populatedCount => some (.ok (.number world.container.populatedCount), world)
  | .getItem index => some (world.viewed ((world.container.index index).map fun bucket => [bucket]))
  | .getSlice slice => some (world.viewed (do
      let (start, stop, step) ← slice.indices world.container.size
      (range start stop step).mapM world.container.index))
  | .iterate => (world.container.iterate fuel 0).map fun buckets => world.viewed (.ok buckets)
  | .readAt index => some ((world.container.readAt index).map .values, world)
  | .appendAt index value =>
      match world.container.appendAt index value with
      | .ok container => some (.ok .done, { world with container := container })
      | .error error => some (.error error, world)
  | .bucket view operation =>
      match world.views[view]? with
      | none => some (.ok .noView, world)
      | some bucket =>
          (operation.call world.views view bucket fuel world.container).map
            fun (result, container) => (result, { world with container := container })

/-- What each operation came back with, and the world it left. -/
def World.run (fuel : Nat) (world : World α) :
    List (Operation α) → Option (List (Except ListError (Observation α) × World α))
  | [] => some []
  | operation :: rest => do
      let (observed, after) ← world.perform fuel operation
      let later ← after.run fuel rest
      some ((observed, after) :: later)

/-! ## On a list of lists -/

structure Dense (α : Type) where
  lists : List (List α)
  views : List Nat

def Dense.new (size : Nat) : Dense α := ⟨List.replicate size [], []⟩

def Dense.stored (dense : Dense α) (index : Nat) : List α := dense.lists.getD index []

def Source.contents (dense : Dense α) : Source α → Option (List α)
  | .list values => some values
  | .view other => dense.views[other]?.map dense.stored

/-- A change of a list, or what was raised. -/
def changed (values : List α) : Except ListError (List α) →
    Except ListError (Observation α) × List α
  | .ok values => (.ok .done, values)
  | .error error => (.error error, values)

/-- A method of `list`. -/
def BucketOperation.onList (dense : Dense α) (values : List α) :
    BucketOperation α → Except ListError (Observation α) × List α
  | .len => (.ok (.number values.length), values)
  | .iterate => (.ok (.values values), values)
  | .getItem index => ((PythonLists.getItem values index).map .value, values)
  | .getSlice slice => ((PythonLists.getSlice values slice).map .values, values)
  | .equals other =>
      match other.contents dense with
      | none => (.ok .noView, values)
      | some others => (.ok (.flag (values == others)), values)
  | .append value => (.ok .done, values ++ [value])
  | .insert index value => (.ok .done, insertAt values index value)
  | .extend source =>
      match source.contents dense with
      | none => (.ok .noView, values)
      | some others => (.ok .done, values ++ others)
  | .setItem index value => changed values (PythonLists.setItem values index value)
  | .setSlice slice replacement =>
      match replacement.contents dense with
      | none => (.ok .noView, values)
      | some replacement => changed values (PythonLists.setSlice values slice replacement)
  | .delItem index => changed values (PythonLists.delItem values index)
  | .delSlice slice => changed values (PythonLists.delSlice values slice)
  | .pop index =>
      match PythonLists.pop values index with
      | .ok (value, rest) => (.ok (.value value), rest)
      | .error error => (.error error, values)
  | .clear => (.ok .done, [])
  | .reverse => (.ok .done, values.reverse)

def Dense.viewed (dense : Dense α) : Except ListError (List Nat) →
    Except ListError (Observation α) × Dense α
  | .ok indices => (.ok (.views indices.length), { dense with views := dense.views ++ indices })
  | .error error => (.error error, dense)

def Dense.step (dense : Dense α) : Operation α → Except ListError (Observation α) × Dense α
  | .len => (.ok (.number dense.lists.length), dense)
  | .populatedCount => (.ok (.number (dense.lists.countP fun values => !values.isEmpty)), dense)
  | .getItem index => dense.viewed ((position dense.lists.length index).map fun index => [index])
  | .getSlice slice => dense.viewed (slice.positions dense.lists.length)
  | .iterate => dense.viewed (.ok (List.range dense.lists.length))
  | .readAt index => ((position dense.lists.length index).map fun index => .values (dense.stored index), dense)
  | .appendAt index value =>
      match position dense.lists.length index with
      | .ok index =>
          (.ok .done, { dense with lists := dense.lists.set index (dense.stored index ++ [value]) })
      | .error error => (.error error, dense)
  | .bucket view operation =>
      match dense.views[view]? with
      | none => (.ok .noView, dense)
      | some index =>
          let (result, values) := operation.onList dense (dense.stored index)
          (result, { dense with lists := dense.lists.set index values })

/-! ## What is promised -/

/-- The container stands for the lists: it stores those that are not empty, and no other. -/
structure Represents (world : World α) (dense : Dense α) : Prop where
  notEmpty : ∀ index values, world.container.buckets.get? index = some values →
    values ≠ [] ∧ index < world.container.size
  lists : dense.lists = (List.range world.container.size).map world.container.stored
  views : world.views = dense.views
  inside : ∀ bucket ∈ world.views, bucket < world.container.size

/-- Every operation is observed as on the lists, and leaves the container for the lists; one that
raises leaves the container as it was. -/
def Agrees (world : World α) (dense : Dense α) :
    List (Operation α) → List (Except ListError (Observation α) × World α) → Prop
  | [], [] => True
  | operation :: rest, (observed, after) :: later =>
      observed = (dense.step operation).1 ∧ Represents after (dense.step operation).2 ∧
        (∀ error, observed = .error error → after.container = world.container) ∧
        Agrees after (dense.step operation).2 rest later
  | _, _ => False

/-- With enough steps the program comes back, and agrees with the lists. -/
def BehavesAsLists (world : World α) (dense : Dense α) (operations : List (Operation α)) : Prop :=
  ∃ enough, ∀ fuel, enough ≤ fuel → ∃ trace, world.run fuel operations = some trace ∧
    Agrees world dense operations trace

/-- No bucket that holds values is extended from another view of itself. -/
def Dense.Apart (dense : Dense α) : Operation α → Prop
  | .bucket view (.extend (.view other)) => ∀ index, dense.views[view]? = some index →
      dense.views[other]? = some index → other = view ∨ dense.stored index = []
  | _ => True

def Dense.ApartThroughout (dense : Dense α) : List (Operation α) → Prop
  | [] => True
  | operation :: rest => dense.Apart operation ∧ (dense.step operation).2.ApartThroughout rest

end Perform

end Gambit.Iterations
