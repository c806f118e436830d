import Mathlib.Tactic
import Mathlib.Data.List.Nodup

/-!
# A dictionary in insertion order

Assigning to a present key keeps its place; a new key goes last.  `appendAt`
is the use of a dictionary of lists to group values by key.
-/

set_option autoImplicit false

structure OrderedDict (κ ν : Type) where
  items : List (κ × ν)
  distinct : (items.map Prod.fst).Nodup

namespace OrderedDict

variable {κ ν μ α : Type}

instance [DecidableEq κ] [DecidableEq ν] : DecidableEq (OrderedDict κ ν) := fun a b =>
  match a, b with
  | ⟨items, _⟩, ⟨items', _⟩ =>
      if h : items = items' then isTrue (by subst h; rfl)
      else isFalse (fun e => h (congrArg OrderedDict.items e))

theorem ext_items {a b : OrderedDict κ ν} (h : a.items = b.items) : a = b := by
  cases a
  cases b
  simp only at h
  subst h
  rfl

def empty : OrderedDict κ ν := ⟨[], List.nodup_nil⟩

def keys (d : OrderedDict κ ν) : List κ := d.items.map Prod.fst

def values (d : OrderedDict κ ν) : List ν := d.items.map Prod.snd

/-- The same keys with computed values. -/
def mapItems (d : OrderedDict κ ν) (f : κ → ν → μ) : OrderedDict κ μ :=
  ⟨d.items.map fun item => (item.1, f item.1 item.2), by
    rw [List.map_map]
    exact d.distinct⟩

/-- The keys whose value is defined, in the same order. -/
def filterMapItems (d : OrderedDict κ ν) (f : κ → ν → Option μ) : OrderedDict κ μ :=
  ⟨d.items.filterMap fun item => (f item.1 item.2).map (item.1, ·), by
    have sub : ((d.items.filterMap fun item => (f item.1 item.2).map (item.1, ·)).map Prod.fst).Sublist
        (d.items.map Prod.fst) := by
      induction d.items with
      | nil => simp
      | cons item rest ih =>
          rw [List.filterMap_cons]
          cases f item.1 item.2 with
          | none => exact ih.cons _
          | some value => exact ih.cons_cons _
    exact d.distinct.sublist sub⟩

variable [DecidableEq κ]

def get? (d : OrderedDict κ ν) (key : κ) : Option ν :=
  (d.items.find? fun item => item.1 = key).map Prod.snd

def contains (d : OrderedDict κ ν) (key : κ) : Bool := (d.get? key).isSome

theorem get?_eq_some_iff (d : OrderedDict κ ν) (key : κ) (value : ν) :
    d.get? key = some value ↔ (key, value) ∈ d.items := by
  obtain ⟨items, distinct⟩ := d
  simp only [get?]
  induction items with
  | nil => simp
  | cons item rest ih =>
      rw [List.map_cons, List.nodup_cons] at distinct
      by_cases same : item.1 = key
      · subst same
        have absent : (item.1, value) ∉ rest := fun member =>
          distinct.1 (List.mem_map.mpr ⟨_, member, rfl⟩)
        rw [List.find?_cons_of_pos (by simp)]
        simp only [Option.map_some, Option.some.injEq, List.mem_cons, absent, or_false]
        exact ⟨fun e => Prod.ext rfl e.symm, fun e => (congrArg Prod.snd e).symm⟩
      · rw [List.find?_cons_of_neg (by simpa using same), ih distinct.2, List.mem_cons]
        constructor
        · exact Or.inr
        · rintro (e | member)
          · exact absurd (congrArg Prod.fst e).symm same
          · exact member

theorem get?_eq_none_iff (d : OrderedDict κ ν) (key : κ) : d.get? key = none ↔ key ∉ d.keys := by
  rw [Option.eq_none_iff_forall_not_mem]
  simp only [Option.mem_def, get?_eq_some_iff, keys, List.mem_map]
  exact ⟨fun absent ⟨item, member, same⟩ => absent item.2 (same ▸ member),
    fun absent value member => absent ⟨_, member, rfl⟩⟩

theorem contains_iff (d : OrderedDict κ ν) (key : κ) : d.contains key = true ↔ key ∈ d.keys := by
  rw [contains, ← not_iff_not, Bool.not_eq_true, Option.isSome_eq_false_iff, Option.isNone_iff_eq_none,
    get?_eq_none_iff]

theorem mem_keys_of_get? {d : OrderedDict κ ν} {key : κ} {value : ν} (found : d.get? key = some value) :
    key ∈ d.keys :=
  List.mem_map.mpr ⟨_, (get?_eq_some_iff d key value).mp found, rfl⟩

@[simp] theorem get?_empty (key : κ) : (empty : OrderedDict κ ν).get? key = none := rfl

/-- Equal keys in equal order and equal lookups. -/
theorem ext_get? {a b : OrderedDict κ ν} (sameKeys : a.keys = b.keys)
    (sameValues : ∀ key, a.get? key = b.get? key) : a = b := by
  obtain ⟨items, distinct⟩ := a
  obtain ⟨items', distinct'⟩ := b
  apply ext_items
  simp only [keys] at sameKeys
  have sub : ∀ item ∈ items, item ∈ items' := fun item member =>
    (get?_eq_some_iff ⟨items', distinct'⟩ item.1 item.2).mp
      ((sameValues item.1).symm.trans
        ((get?_eq_some_iff ⟨items, distinct⟩ item.1 item.2).mpr member))
  show items = items'
  clear sameValues
  induction items generalizing items' with
  | nil => simpa using sameKeys.symm
  | cons item rest ih =>
      cases items' with
      | nil => cases sameKeys
      | cons item' rest' =>
          simp only [List.map_cons, List.cons.injEq] at sameKeys
          rw [List.map_cons, List.nodup_cons] at distinct distinct'
          have notLater : ∀ other ∈ rest, other.1 ≠ item.1 := fun other member same =>
            distinct.1 (same ▸ List.mem_map_of_mem member)
          have headEq : item = item' := by
            rcases List.mem_cons.mp (sub item (List.mem_cons_self ..)) with same | later
            · exact same
            · exact absurd (sameKeys.1 ▸ List.mem_map.mpr ⟨_, later, rfl⟩) distinct'.1
          subst headEq
          refine congrArg (item :: ·) (ih distinct.2 rest' distinct'.2 sameKeys.2 ?_)
          intro other member
          rcases List.mem_cons.mp (sub other (List.mem_cons_of_mem _ member)) with same | later
          · exact absurd (congrArg Prod.fst same) (notLater other member)
          · exact later

/-! ## Assignment -/

def set (d : OrderedDict κ ν) (key : κ) (value : ν) : OrderedDict κ ν :=
  if present : key ∈ d.keys then
    d.mapItems fun other old => if other = key then value else old
  else
    ⟨d.items ++ [(key, value)], by
      rw [List.map_append]
      exact List.nodup_append.mpr ⟨d.distinct, List.nodup_singleton _, fun other member k same => by
        rw [List.map_singleton, List.mem_singleton] at same
        intro e
        rw [e, same] at member
        exact present member⟩⟩

omit [DecidableEq κ] in
theorem keys_mapItems (d : OrderedDict κ ν) (f : κ → ν → μ) : (d.mapItems f).keys = d.keys := by
  simp [mapItems, keys, Function.comp_def]

theorem get?_mapItems (d : OrderedDict κ ν) (f : κ → ν → μ) (key : κ) :
    (d.mapItems f).get? key = (d.get? key).map (f key) := by
  apply Option.ext
  intro value
  rw [get?_eq_some_iff, Option.map_eq_some_iff]
  simp only [mapItems, List.mem_map, Prod.mk.injEq, get?_eq_some_iff]
  constructor
  · rintro ⟨item, member, rfl, rfl⟩
    exact ⟨item.2, member, rfl⟩
  · rintro ⟨old, member, rfl⟩
    exact ⟨(key, old), member, rfl, rfl⟩

theorem keys_set (d : OrderedDict κ ν) (key : κ) (value : ν) :
    (d.set key value).keys = if key ∈ d.keys then d.keys else d.keys ++ [key] := by
  unfold set
  split
  · exact keys_mapItems d _
  · simp [keys]

theorem get?_set (d : OrderedDict κ ν) (key : κ) (value : ν) (other : κ) :
    (d.set key value).get? other = if other = key then some value else d.get? other := by
  apply Option.ext
  intro found
  unfold set
  split
  · rename_i present
    rw [get?_mapItems]
    by_cases same : other = key
    · subst same
      obtain ⟨old, stored⟩ := Option.isSome_iff_exists.mp ((contains_iff d other).mpr present)
      simp [stored]
    · simp [same]
  · rename_i absent
    rw [get?_eq_some_iff, List.mem_append, List.mem_singleton, ← get?_eq_some_iff]
    by_cases same : other = key
    · subst same
      have none : d.get? other = none := (get?_eq_none_iff d other).mpr absent
      simp [none, eq_comm]
    · simp [same]

@[simp] theorem get?_set_self (d : OrderedDict κ ν) (key : κ) (value : ν) :
    (d.set key value).get? key = some value := by
  rw [get?_set, if_pos rfl]

theorem mem_keys_set (d : OrderedDict κ ν) (key : κ) (value : ν) (other : κ) :
    other ∈ (d.set key value).keys ↔ other = key ∨ other ∈ d.keys := by
  rw [keys_set]
  split
  · rename_i present
    exact ⟨Or.inr, fun h => h.elim (fun e => e ▸ present) id⟩
  · rw [List.mem_append, List.mem_singleton, or_comm]

/-- Writing back what is stored changes nothing. -/
theorem set_get? {d : OrderedDict κ ν} {key : κ} {value : ν} (stored : d.get? key = some value) :
    d.set key value = d := by
  apply ext_get?
  · rw [keys_set, if_pos (mem_keys_of_get? stored)]
  · intro other
    rw [get?_set]
    split
    · rename_i same
      rw [same, stored]
    · rfl

theorem mapItems_set (d : OrderedDict κ ν) (f : κ → ν → μ) (key : κ) (value : ν) :
    (d.set key value).mapItems f = (d.mapItems f).set key (f key value) := by
  apply ext_get?
  · rw [keys_mapItems, keys_set, keys_set, keys_mapItems]
  · intro other
    rw [get?_mapItems, get?_set, get?_set, get?_mapItems]
    split
    · rename_i same
      rw [same]
      rfl
    · rfl

theorem items_set_of_not_mem {d : OrderedDict κ ν} {key : κ} (absent : key ∉ d.keys) (value : ν) :
    (d.set key value).items = d.items ++ [(key, value)] := by
  rw [set, dif_neg absent]

/-- The assignments one after the other. -/
def ofList (assignments : List (κ × ν)) : OrderedDict κ ν :=
  assignments.foldl (fun d assignment => d.set assignment.1 assignment.2) empty

theorem items_ofList {assignments : List (κ × ν)} (distinct : (assignments.map Prod.fst).Nodup) :
    (ofList assignments).items = assignments := by
  induction assignments using List.reverseRecOn with
  | nil => rfl
  | append_singleton assignments assignment ih =>
      rw [List.map_append, List.nodup_append] at distinct
      obtain ⟨earlier, -, apart⟩ := distinct
      have before := ih earlier
      have absent : assignment.1 ∉ (ofList assignments).keys := by
        rw [keys, before]
        exact fun member => apart _ member assignment.1 (by simp) rfl
      rw [ofList, List.foldl_append]
      change ((ofList assignments).set assignment.1 assignment.2).items = _
      rw [items_set_of_not_mem absent, before]

/-! ## Removal -/

def erase (d : OrderedDict κ ν) (key : κ) : OrderedDict κ ν :=
  ⟨d.items.filter fun item => item.1 ≠ key, d.distinct.sublist (List.filter_sublist.map _)⟩

theorem keys_erase (d : OrderedDict κ ν) (key : κ) :
    (d.erase key).keys = d.keys.filter fun other => other ≠ key := by
  rw [keys, keys, List.filter_map]
  rfl

theorem get?_erase (d : OrderedDict κ ν) (key other : κ) :
    (d.erase key).get? other = if other = key then none else d.get? other := by
  apply Option.ext
  intro value
  rw [get?_eq_some_iff, erase, List.mem_filter]
  by_cases same : other = key
  · simp [same]
  · simp [same, get?_eq_some_iff]

theorem get?_erase_of_ne (d : OrderedDict κ ν) {key other : κ} (distinct : other ≠ key) :
    (d.erase key).get? other = d.get? other := by
  rw [get?_erase, if_neg distinct]

theorem get?_filterMapItems (d : OrderedDict κ ν) (f : κ → ν → Option μ) (key : κ) :
    (d.filterMapItems f).get? key = (d.get? key).bind (f key) := by
  apply Option.ext
  intro value
  rw [get?_eq_some_iff, Option.bind_eq_some_iff]
  simp only [filterMapItems, List.mem_filterMap, Option.map_eq_some_iff, Prod.mk.injEq,
    get?_eq_some_iff]
  constructor
  · rintro ⟨item, member, found, defined, rfl, rfl⟩
    exact ⟨item.2, member, defined⟩
  · rintro ⟨old, member, defined⟩
    exact ⟨(key, old), member, value, defined, rfl, rfl⟩

omit [DecidableEq κ] in
theorem keys_filterMapItems {d : OrderedDict κ ν} {f : κ → ν → Option μ}
    (defined : ∀ item ∈ d.items, (f item.1 item.2).isSome) : (d.filterMapItems f).keys = d.keys := by
  obtain ⟨items, distinct⟩ := d
  simp only [filterMapItems, keys] at defined ⊢
  clear distinct
  induction items with
  | nil => rfl
  | cons item rest ih =>
      obtain ⟨value, h⟩ := Option.isSome_iff_exists.mp (defined item (List.mem_cons_self ..))
      rw [List.filterMap_cons, h]
      simp only [Option.map_some, List.map_cons]
      rw [ih fun other member => defined other (List.mem_cons_of_mem _ member)]

/-! ## Dictionaries of lists -/

/-- The list a dictionary with empty lists for absent keys reads. -/
def listAt (d : OrderedDict κ (List α)) (key : κ) : List α := (d.get? key).getD []

/-- `d[key].append(x)` in a `defaultdict(list)`. -/
def appendAt (d : OrderedDict κ (List α)) (key : κ) (x : α) : OrderedDict κ (List α) :=
  d.set key (d.listAt key ++ [x])

/-- Reading `d[key]` in a `defaultdict(list)` leaves the key there. -/
def touch (d : OrderedDict κ (List α)) (key : κ) : OrderedDict κ (List α) :=
  if d.contains key then d else d.set key []

/-- A dictionary that files elements under their key holds at a key the elements with it. -/
theorem filter_flatten_values {key : α → κ} (d : OrderedDict κ (List α))
    (filed : ∀ k, ∀ x ∈ d.listAt k, key x = k) (k : κ) :
    (d.values.flatten.filter fun x => key x = k) = d.listAt k := by
  obtain ⟨items, distinct⟩ := d
  simp only [listAt, get?, values] at filed ⊢
  induction items with
  | nil => rfl
  | cons item rest ih =>
      rw [List.map_cons, List.nodup_cons] at distinct
      have own : ∀ x ∈ item.2, key x = item.1 := by
        intro x member
        refine filed item.1 x ?_
        rwa [List.find?_cons_of_pos (by simp)]
      have others : ∀ j, ∀ x ∈ ((rest.find? fun other => other.1 = j).map Prod.snd).getD [],
          key x = j := by
        intro j x member
        by_cases here : item.1 = j
        · cases found : rest.find? fun other => other.1 = j with
          | none => simp [found] at member
          | some other =>
              have listed := List.mem_of_find?_eq_some found
              have same : other.1 = j := by simpa using List.find?_some found
              exact absurd (List.mem_map.mpr ⟨other, listed, same.trans here.symm⟩) distinct.1
        · refine filed j x ?_
          rwa [List.find?_cons_of_neg (by simpa using here)]
      rw [List.map_cons, List.flatten_cons, List.filter_append]
      by_cases here : item.1 = k
      · have restNone : (rest.map Prod.snd).flatten.filter (fun x => key x = k) = [] := by
          rw [ih distinct.2 others]
          cases found : rest.find? fun other => other.1 = k with
          | none => rfl
          | some other =>
              have listed := List.mem_of_find?_eq_some found
              have same : other.1 = k := by simpa using List.find?_some found
              exact absurd (List.mem_map.mpr ⟨other, listed, same.trans here.symm⟩) distinct.1
        rw [restNone, List.append_nil, List.find?_cons_of_pos (by simpa using here)]
        exact List.filter_eq_self.mpr fun x member => by simpa [here] using own x member
      · have ownNone : item.2.filter (fun x => key x = k) = [] :=
          List.filter_eq_nil_iff.mpr fun x member => by
            rw [own x member]
            simpa using here
        rw [ownNone, List.nil_append, ih distinct.2 others,
          List.find?_cons_of_neg (by simpa using here)]

theorem listAt_set (d : OrderedDict κ (List α)) (key : κ) (xs : List α) (other : κ) :
    (d.set key xs).listAt other = if other = key then xs else d.listAt other := by
  rw [listAt, get?_set]
  split
  · rfl
  · rfl

theorem listAt_appendAt (d : OrderedDict κ (List α)) (key : κ) (x : α) (other : κ) :
    (d.appendAt key x).listAt other = d.listAt other ++ if key = other then [x] else [] := by
  rw [appendAt, listAt_set]
  by_cases same : other = key
  · subst same
    rw [if_pos rfl, if_pos rfl]
  · rw [if_neg same, if_neg (Ne.symm same), List.append_nil]

@[simp] theorem listAt_touch (d : OrderedDict κ (List α)) (key other : κ) :
    (d.touch key).listAt other = d.listAt other := by
  unfold touch
  split
  · rfl
  · rename_i absent
    rw [listAt_set]
    split
    · rename_i same
      rw [contains, Bool.not_eq_true, Option.isSome_eq_false_iff, Option.isNone_iff_eq_none] at absent
      rw [same, listAt, absent]
      rfl
    · rfl

/-- Grouping by key collects, under each key, its elements in order. -/
theorem listAt_foldl_appendAt (key : α → κ) (xs : List α) (d : OrderedDict κ (List α)) (k : κ) :
    (xs.foldl (fun d x => d.appendAt (key x) x) d).listAt k =
      d.listAt k ++ xs.filter fun x => key x = k := by
  induction xs generalizing d with
  | nil => simp
  | cons x xs ih =>
      rw [List.foldl_cons, ih, listAt_appendAt, List.append_assoc, List.filter_cons]
      by_cases same : key x = k
      · simp [same]
      · simp [same]

theorem mem_keys_foldl_appendAt (key : α → κ) (xs : List α) (d : OrderedDict κ (List α)) (k : κ) :
    k ∈ (xs.foldl (fun d x => d.appendAt (key x) x) d).keys ↔ k ∈ d.keys ∨ k ∈ xs.map key := by
  induction xs generalizing d with
  | nil => simp
  | cons x xs ih =>
      rw [List.foldl_cons, ih, appendAt, mem_keys_set, List.map_cons, List.mem_cons]
      tauto

/-- `groupBy`: the elements by key, keys in order of first appearance. -/
def groupBy (key : α → κ) (xs : List α) : OrderedDict κ (List α) :=
  xs.foldl (fun d x => d.appendAt (key x) x) empty

theorem get?_groupBy {key : α → κ} {xs : List α} {x : α} (member : x ∈ xs) :
    (groupBy key xs).get? (key x) = some (xs.filter fun y => key y = key x) := by
  have listed := (mem_keys_foldl_appendAt key xs empty (key x)).mpr
    (Or.inr (List.mem_map_of_mem member))
  obtain ⟨group, stored⟩ := Option.isSome_iff_exists.mp ((contains_iff _ _).mpr listed)
  have grouped := listAt_foldl_appendAt key xs empty (key x)
  rw [listAt, stored] at grouped
  rw [groupBy, stored]
  simpa [listAt] using grouped

theorem mem_groupBy {key : α → κ} {xs : List α} {item : κ × List α}
    (member : item ∈ (groupBy key xs).items) :
    item.2 = (xs.filter fun x => key x = item.1) ∧ item.2 ≠ [] := by
  have stored : (groupBy key xs).get? item.1 = some item.2 := (get?_eq_some_iff _ _ _).mpr member
  have grouped := listAt_foldl_appendAt key xs empty item.1
  have valueEq : item.2 = xs.filter fun x => key x = item.1 := by
    rw [← groupBy, listAt, stored] at grouped
    simpa [listAt] using grouped
  refine ⟨valueEq, ?_⟩
  have listed := (mem_keys_foldl_appendAt key xs empty item.1).mp (mem_keys_of_get? stored)
  rcases listed with none | listed
  · cases none
  · obtain ⟨x, xMember, same⟩ := List.mem_map.mp listed
    rw [valueEq]
    exact List.ne_nil_of_mem (List.mem_filter.mpr ⟨xMember, by simpa using same⟩)

theorem mem_keys_groupBy {key : α → κ} {xs : List α} {k : κ} :
    k ∈ (groupBy key xs).keys ↔ k ∈ xs.map key := by
  rw [groupBy, mem_keys_foldl_appendAt]
  simp [keys, empty]

end OrderedDict
