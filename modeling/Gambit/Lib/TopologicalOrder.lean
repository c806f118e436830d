import Gambit.Lib.Raising
import Mathlib.Logic.Relation

/-!
# Depth-first topological order

A visit completes a node after the nodes it depends on, and stops at a node it
is still visiting.  In the order it leaves, every node comes after its
dependencies.
-/

set_option autoImplicit false

open Raising

namespace TopologicalOrder

variable {ν : Type} [DecidableEq ν]

inductive Stop (ν : Type)
  | cycle (path : List ν)
  | tooDeep
deriving DecidableEq

/-- The visit of a node from inside the visits of others; `order` is what is complete. -/
def visit (dependencies : ν → List ν) :
    Nat → List ν → List ν → ν → Except (Stop ν) (List ν)
  | 0, _, _, _ => .error .tooDeep
  | depth + 1, visiting, order, name =>
      if name ∈ order then .ok order
      else if name ∈ visiting then
        .error (.cycle (visiting.drop (visiting.idxOf name) ++ [name]))
      else do
        let order ← (dependencies name).foldlM
          (visit dependencies depth (visiting ++ [name])) order
        .ok (order ++ [name])

def sort (dependencies : ν → List ν) (depth : Nat) (names : List ν) :
    Except (Stop ν) (List ν) :=
  names.foldlM (visit dependencies depth []) []

/-- Every node comes once and after its dependencies. -/
inductive Ordered (dependencies : ν → List ν) : List ν → Prop
  | nil : Ordered dependencies []
  | snoc {order : List ν} {name : ν} (before : Ordered dependencies order) (new : name ∉ order)
      (ready : ∀ dependency ∈ dependencies name, dependency ∈ order) :
      Ordered dependencies (order ++ [name])

variable {dependencies : ν → List ν} {visiting order nodes names : List ν} {depth : Nat} {name : ν}

/-- What a visit keeps: the order is one, and nothing being visited is in it. -/
structure Underway (dependencies : ν → List ν) (visiting order : List ν) : Prop where
  ordered : Ordered dependencies order
  pending : ∀ node ∈ visiting, node ∉ order

omit [DecidableEq ν] in
theorem Underway.enter (underway : Underway dependencies visiting order) (new : name ∉ order) :
    Underway dependencies (visiting ++ [name]) order where
  ordered := underway.ordered
  pending := by
    intro node member
    rcases List.mem_append.mp member with outer | inner
    · exact underway.pending node outer
    · rw [List.mem_singleton.mp inner]
      exact new

omit [DecidableEq ν] in
theorem Underway.leave (underway : Underway dependencies (visiting ++ [name]) order)
    (outside : name ∉ visiting) (ready : ∀ dependency ∈ dependencies name, dependency ∈ order) :
    Underway dependencies visiting (order ++ [name]) where
  ordered := .snoc underway.ordered (underway.pending name (by simp)) ready
  pending := by
    intro node member complete
    rcases List.mem_append.mp complete with old | new
    · exact underway.pending node (List.mem_append_left _ member) old
    · rw [List.mem_singleton.mp new] at member
      exact outside member

theorem visit_yields (underway : Underway dependencies visiting order) :
    Yields (fun after => Underway dependencies visiting after ∧ name ∈ after ∧ order ⊆ after)
      (fun _ => True) (visit dependencies depth visiting order name) := by
  induction depth generalizing visiting order name with
  | zero => trivial
  | succ depth ih =>
      rw [visit]
      split
      · rename_i complete
        exact ⟨underway, complete, List.Subset.refl _⟩
      split
      · trivial
      rename_i new outside
      have loop : Yields (fun after => Underway dependencies (visiting ++ [name]) after ∧
          (∀ node ∈ dependencies name, node ∈ after) ∧ order ⊆ after) (fun _ => True)
          ((dependencies name).foldlM (visit dependencies depth (visiting ++ [name])) order) := by
        apply Yields.foldlM_each (Q := fun node after => node ∈ after) List.Subset.refl
          (fun _ _ _ => List.Subset.trans) (fun _ _ _ grows member => grows member)
        · intro node _ order now
          exact ih now
        · exact underway.enter new
      apply loop.bind
      intro after held
      obtain ⟨now, ready, grows⟩ := held
      exact ⟨now.leave outside ready, by simp, fun node member =>
        List.mem_append_left _ (grows member)⟩

/-- A visit deeper than the nodes left to enter does not run out. -/
theorem visit_deep (closed : ∀ node ∈ nodes, dependencies node ⊆ nodes)
    (distinct : visiting.Nodup) (within : visiting ⊆ nodes) (member : name ∈ nodes)
    (deep : nodes.length < visiting.length + depth) :
    Yields (fun _ => True) (fun stop => stop ≠ .tooDeep)
      (visit dependencies depth visiting order name) := by
  induction depth generalizing visiting order name with
  | zero =>
      have fewer := (distinct.subperm within).length_le
      omega
  | succ depth ih =>
      rw [visit]
      split
      · trivial
      split
      · exact nofun
      rename_i new outside
      have distinctInside : (visiting ++ [name]).Nodup :=
        List.nodup_append.mpr ⟨distinct, List.nodup_singleton _, by
          intro node old other single same
          rw [List.mem_singleton.mp single] at same
          exact outside (same ▸ old)⟩
      have withinInside : visiting ++ [name] ⊆ nodes :=
        List.append_subset.mpr ⟨within, List.cons_subset.mpr ⟨member, List.nil_subset _⟩⟩
      have loop : Yields (fun _ => True) (fun stop => stop ≠ .tooDeep)
          ((dependencies name).foldlM (visit dependencies depth (visiting ++ [name])) order) := by
        apply Yields.foldlM _ trivial
        intro node inside _ _
        apply ih distinctInside withinInside (closed name member inside)
        rw [List.length_append, List.length_singleton]
        omega
      exact loop.bind fun _ _ => trivial

/-- A sorted graph is in order and has every node asked for. -/
theorem sort_ok (run : sort dependencies depth names = .ok order) :
    Ordered dependencies order ∧ names ⊆ order := by
  have loop : Yields (fun after => Underway dependencies [] after ∧ (∀ node ∈ names, node ∈ after) ∧
      [] ⊆ after) (fun _ => True) (sort dependencies depth names) := by
    apply Yields.foldlM_each (Q := fun node after => node ∈ after) List.Subset.refl
      (fun _ _ _ => List.Subset.trans) (fun _ _ _ grows member => grows member)
    · intro node _ order now
      exact visit_yields now
    · exact ⟨.nil, fun _ member => (List.not_mem_nil member).elim⟩
  obtain ⟨underway, all, _⟩ := loop.of_ok run
  exact ⟨underway.ordered, all⟩

theorem visit_within (closed : ∀ node ∈ nodes, dependencies node ⊆ nodes) (member : name ∈ nodes)
    (within : order ⊆ nodes) :
    Yields (fun after => after ⊆ nodes) (fun _ => True)
      (visit dependencies depth visiting order name) := by
  induction depth generalizing visiting order name with
  | zero => trivial
  | succ depth ih =>
      rw [visit]
      split
      · exact within
      split
      · trivial
      have loop : Yields (fun after => after ⊆ nodes) (fun _ => True)
          ((dependencies name).foldlM (visit dependencies depth (visiting ++ [name])) order) :=
        Yields.foldlM (fun node inside _ now => ih (closed name member inside) now) within
      apply loop.bind
      intro after now
      exact List.append_subset.mpr ⟨now, List.cons_subset.mpr ⟨member, List.nil_subset _⟩⟩

/-- A sort completes nodes of the graph only. -/
theorem sort_within (closed : ∀ node ∈ nodes, dependencies node ⊆ nodes) (asked : names ⊆ nodes)
    (run : sort dependencies depth names = .ok order) : order ⊆ nodes := by
  have loop : Yields (fun after => after ⊆ nodes) (fun _ => True)
      (sort dependencies depth names) :=
    Yields.foldlM (fun node member _ now => visit_within closed (asked member) now)
      (List.nil_subset _)
  exact loop.of_ok run

/-- A sort one deeper than the nodes does not run out. -/
theorem sort_deep (closed : ∀ node ∈ nodes, dependencies node ⊆ nodes) (within : names ⊆ nodes)
    (deep : nodes.length < depth) :
    Yields (fun _ => True) (fun stop => stop ≠ .tooDeep) (sort dependencies depth names) :=
  Yields.foldlM (fun node member _ _ => visit_deep closed List.nodup_nil (List.nil_subset _)
    (within member) (by rwa [List.length_nil, Nat.zero_add])) trivial

omit [DecidableEq ν] in
theorem Ordered.nodup (ordered : Ordered dependencies order) : order.Nodup := by
  induction ordered with
  | nil => exact List.nodup_nil
  | snoc before new ready ih =>
      refine List.nodup_append.mpr ⟨ih, List.nodup_singleton _, ?_⟩
      intro node old other single same
      rw [List.mem_singleton.mp single] at same
      exact new (same ▸ old)

/-- The place of a node is a rank that falls along dependencies. -/
theorem Ordered.idxOf_lt (ordered : Ordered dependencies order) (member : name ∈ order)
    {dependency : ν} (depends : dependency ∈ dependencies name) :
    dependency ∈ order ∧ order.idxOf dependency < order.idxOf name := by
  induction ordered with
  | nil => cases member
  | @snoc order last before new ready ih =>
      rcases List.mem_append.mp member with old | single
      · obtain ⟨inside, less⟩ := ih old
        rw [List.idxOf_append_of_mem inside, List.idxOf_append_of_mem old]
        exact ⟨List.mem_append_left _ inside, less⟩
      · have same := List.mem_singleton.mp single
        subst same
        have inside := ready dependency depends
        rw [List.idxOf_append_of_mem inside, List.idxOf_append_of_notMem new]
        exact ⟨List.mem_append_left _ inside,
          (List.idxOf_lt_length_of_mem inside).trans_le (Nat.le_add_right _ _)⟩

/-! ## Cycles -/

/-- One node depends on another. -/
def Depends (dependencies : ν → List ν) (node dependency : ν) : Prop :=
  dependency ∈ dependencies node

def Cyclic (dependencies : ν → List ν) : Prop :=
  ∃ node, Relation.TransGen (Depends dependencies) node node

/-- A visit that reports a cycle has found one: everything being visited leads to the node. -/
theorem visit_cycle
    (leads : ∀ outer ∈ visiting, Relation.TransGen (Depends dependencies) outer name) :
    Yields (fun _ => True) (fun stop => stop ≠ .tooDeep → Cyclic dependencies)
      (visit dependencies depth visiting order name) := by
  induction depth generalizing visiting order name with
  | zero => exact fun deep => absurd rfl deep
  | succ depth ih =>
      rw [visit]
      split
      · trivial
      split
      · rename_i inside
        exact fun _ => ⟨name, leads name inside⟩
      have loop : Yields (fun _ => True) (fun stop => stop ≠ .tooDeep → Cyclic dependencies)
          ((dependencies name).foldlM (visit dependencies depth (visiting ++ [name])) order) := by
        apply Yields.foldlM _ trivial
        intro dependency depends _ _
        apply ih
        intro outer member
        rcases List.mem_append.mp member with earlier | last
        · exact (leads outer earlier).tail depends
        · rw [List.mem_singleton.mp last]
          exact .single depends
      exact loop.bind fun _ _ => trivial

theorem sort_cycle (dependencies : ν → List ν) (depth : Nat) (names : List ν) :
    Yields (fun _ => True) (fun stop => stop ≠ .tooDeep → Cyclic dependencies)
      (sort dependencies depth names) :=
  Yields.foldlM (fun _ _ _ _ => visit_cycle fun _ member => absurd member List.not_mem_nil)
    trivial

/-- An order of all nodes that depend on others rules cycles out. -/
theorem Ordered.acyclic (ordered : Ordered dependencies order)
    (all : ∀ node, dependencies node ≠ [] → node ∈ order) : ¬ Cyclic dependencies := by
  rintro ⟨node, cycle⟩
  have falls : ∀ {a b : ν}, Relation.TransGen (Depends dependencies) a b →
      order.idxOf b < order.idxOf a := by
    intro a b path
    have step : ∀ {a b : ν}, Depends dependencies a b → order.idxOf b < order.idxOf a := by
      intro a b depends
      exact (ordered.idxOf_lt (all a (List.ne_nil_of_mem depends)) depends).2
    induction path with
    | single depends => exact step depends
    | tail _ depends ih => exact (step depends).trans ih
  exact lt_irrefl _ (falls cycle)

/-! ## Depth -/

omit [DecidableEq ν] in
theorem foldlM_deeper {σ α : Type} {f g : σ → α → Except (Stop ν) σ}
    (each : ∀ s x, f s x = .error .tooDeep ∨ g s x = f s x) (xs : List α) (s : σ) :
    xs.foldlM f s = .error .tooDeep ∨ xs.foldlM g s = xs.foldlM f s := by
  induction xs generalizing s with
  | nil => exact .inr rfl
  | cons x xs ih =>
      rw [List.foldlM_cons, List.foldlM_cons]
      rcases each s x with deep | same
      · rw [deep]
        exact .inl rfl
      · rw [same]
        cases f s x with
        | ok next => exact ih next
        | error stop => exact .inr rfl

/-- A visit that did not run out does the same with more depth. -/
theorem visit_deeper (dependencies : ν → List ν) (depth : Nat) (visiting order : List ν) (name : ν) :
    visit dependencies depth visiting order name = .error .tooDeep ∨
      visit dependencies (depth + 1) visiting order name =
        visit dependencies depth visiting order name := by
  induction depth generalizing visiting order name with
  | zero => exact .inl rfl
  | succ depth ih =>
      rw [visit, visit]
      split
      · exact .inr rfl
      split
      · exact .inr rfl
      rcases foldlM_deeper (ih (visiting ++ [name])) (dependencies name) order with
        deep | same
      · rw [deep]
        exact .inl rfl
      · rw [same]
        exact .inr rfl

/-- The depth is no matter beyond the number of nodes. -/
theorem sort_depth (closed : ∀ node ∈ nodes, dependencies node ⊆ nodes) (within : names ⊆ nodes)
    (deep : nodes.length < depth) :
    sort dependencies depth names = sort dependencies (nodes.length + 1) names := by
  induction depth, deep using Nat.le_induction with
  | base => rfl
  | succ depth enough ih =>
      rw [← ih]
      rcases foldlM_deeper (fun order name => visit_deeper dependencies depth [] order name)
        names [] with
        ran | same
      · have total := sort_deep closed within enough
        exact absurd rfl (total.of_error ran)
      · exact same

end TopologicalOrder
