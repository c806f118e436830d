import Mathlib.Tactic
import Mathlib.Data.List.Sort
import Mathlib.Data.List.TakeWhile

/-!
# A dictionary kept sorted by key

The keys increase strictly along the item list.  Lookup by position and by
bisection are as in a sorted-list implementation; `upTo` gives them their
meaning: the items whose keys do not exceed a bound.
-/

set_option autoImplicit false

structure SortedDict (κ ν : Type) [LinearOrder κ] where
  items : List (κ × ν)
  sorted : items.Pairwise fun a b => a.1 < b.1

namespace SortedDict

variable {κ ν : Type} [LinearOrder κ]

instance [DecidableEq ν] : DecidableEq (SortedDict κ ν) := fun a b =>
  match a, b with
  | ⟨items, _⟩, ⟨items', _⟩ =>
      if h : items = items' then isTrue (by subst h; rfl)
      else isFalse (fun e => h (congrArg SortedDict.items e))

theorem ext_items {a b : SortedDict κ ν} (h : a.items = b.items) : a = b := by
  cases a
  cases b
  simp only at h
  subst h
  rfl

def empty : SortedDict κ ν := ⟨[], List.Pairwise.nil⟩

def keys (d : SortedDict κ ν) : List κ := d.items.map Prod.fst

def get? (d : SortedDict κ ν) (key : κ) : Option ν :=
  (d.items.find? fun item => item.1 = key).map Prod.snd

def contains (d : SortedDict κ ν) (key : κ) : Bool := (d.get? key).isSome

def insertItem (key : κ) (value : ν) : List (κ × ν) → List (κ × ν)
  | [] => [(key, value)]
  | item :: rest =>
      if key < item.1 then (key, value) :: item :: rest
      else if item.1 < key then item :: insertItem key value rest
      else (key, value) :: rest

theorem mem_insertItem {key : κ} {value : ν} {item : κ × ν} :
    ∀ {items : List (κ × ν)}, item ∈ insertItem key value items →
      item = (key, value) ∨ item ∈ items := by
  intro items
  induction items with
  | nil => intro h; simpa [insertItem] using h
  | cons head rest ih =>
      intro h
      simp only [insertItem] at h
      split at h
      · simpa using h
      · split at h
        · rcases List.mem_cons.mp h with rfl | h
          · simp
          · rcases ih h with rfl | h <;> simp_all
        · rcases List.mem_cons.mp h with rfl | h <;> simp_all

theorem sorted_insertItem (key : κ) (value : ν) (items : List (κ × ν))
    (sorted : items.Pairwise fun a b => a.1 < b.1) :
    (insertItem key value items).Pairwise fun a b => a.1 < b.1 := by
  induction items with
  | nil => simp [insertItem]
  | cons head rest ih =>
      obtain ⟨first, sortedRest⟩ := List.pairwise_cons.mp sorted
      simp only [insertItem]
      split
      · rename_i less
        refine List.pairwise_cons.mpr ⟨?_, sorted⟩
        intro item member
        rcases List.mem_cons.mp member with rfl | member
        · exact less
        · exact less.trans (first item member)
      · split
        · rename_i greater
          refine List.pairwise_cons.mpr ⟨?_, ih sortedRest⟩
          intro item member
          rcases mem_insertItem member with rfl | member
          · exact greater
          · exact first item member
        · rename_i notLess notGreater
          have same : head.1 = key := le_antisymm (not_lt.mp notLess) (not_lt.mp notGreater)
          exact List.pairwise_cons.mpr ⟨fun item member => same ▸ first item member, sortedRest⟩

/-- `d[key] = value`. -/
def set (d : SortedDict κ ν) (key : κ) (value : ν) : SortedDict κ ν :=
  ⟨insertItem key value d.items, sorted_insertItem key value d.items d.sorted⟩

/-- `del d[key]`. -/
def erase (d : SortedDict κ ν) (key : κ) : SortedDict κ ν :=
  ⟨d.items.filter fun item => item.1 ≠ key, d.sorted.filter _⟩

/-- How many keys lie before `key`. -/
def bisectLeft (d : SortedDict κ ν) (key : κ) : Nat :=
  (d.items.takeWhile fun item => item.1 < key).length

def peekItem (d : SortedDict κ ν) (index : Nat) : Option (κ × ν) := d.items[index]?

def upTo (d : SortedDict κ ν) (key : κ) : List (κ × ν) := d.items.filter fun item => item.1 ≤ key

/-! ## Membership and lookup -/

@[simp] theorem items_empty : (empty : SortedDict κ ν).items = [] := rfl

@[simp] theorem get?_empty (key : κ) : (empty : SortedDict κ ν).get? key = none := rfl

theorem get?_eq_some_iff (d : SortedDict κ ν) (key : κ) (value : ν) :
    d.get? key = some value ↔ (key, value) ∈ d.items := by
  obtain ⟨items, sorted⟩ := d
  simp only [get?]
  induction items with
  | nil => simp
  | cons head rest ih =>
      obtain ⟨first, sortedRest⟩ := List.pairwise_cons.mp sorted
      have := ih sortedRest
      by_cases same : head.1 = key
      · rw [List.find?_cons_of_pos (by simpa using same)]
        simp only [Option.map_some, Option.some.injEq, List.mem_cons]
        constructor
        · intro valueEq
          left
          rw [← same, ← valueEq]
        · rintro (rfl | member)
          · rfl
          · exact absurd (same ▸ first _ member) (lt_irrefl _)
      · rw [List.find?_cons_of_neg (by simpa using same), this, List.mem_cons]
        constructor
        · exact Or.inr
        · rintro (rfl | member)
          · exact absurd rfl same
          · exact member

theorem get?_eq_none_iff (d : SortedDict κ ν) (key : κ) :
    d.get? key = none ↔ ∀ item ∈ d.items, item.1 ≠ key := by
  simp [get?]

theorem contains_iff (d : SortedDict κ ν) (key : κ) :
    d.contains key = true ↔ ∃ value, (key, value) ∈ d.items := by
  rw [contains, Option.isSome_iff_exists]
  exact exists_congr fun value => get?_eq_some_iff d key value

theorem mem_set_iff (d : SortedDict κ ν) (key : κ) (value : ν) (item : κ × ν) :
    item ∈ (d.set key value).items ↔
      item = (key, value) ∨ (item.1 ≠ key ∧ item ∈ d.items) := by
  obtain ⟨items, sorted⟩ := d
  simp only [set]
  induction items with
  | nil => simp [insertItem]
  | cons head rest ih =>
      obtain ⟨first, sortedRest⟩ := List.pairwise_cons.mp sorted
      have later : ∀ other ∈ rest, head.1 < other.1 := first
      simp only [insertItem]
      split
      · rename_i less
        simp only [List.mem_cons]
        constructor
        · rintro (rfl | rfl | member)
          · exact Or.inl rfl
          · exact Or.inr ⟨less.ne', Or.inl rfl⟩
          · exact Or.inr ⟨(less.trans (later item member)).ne', Or.inr member⟩
        · rintro (rfl | ⟨_, member⟩)
          · exact Or.inl rfl
          · exact Or.inr member
      · split
        · rename_i greater
          rw [List.mem_cons, ih sortedRest, List.mem_cons]
          constructor
          · rintro (rfl | rfl | ⟨differs, member⟩)
            · exact Or.inr ⟨greater.ne, Or.inl rfl⟩
            · exact Or.inl rfl
            · exact Or.inr ⟨differs, Or.inr member⟩
          · rintro (rfl | ⟨differs, rfl | member⟩)
            · exact Or.inr (Or.inl rfl)
            · exact Or.inl rfl
            · exact Or.inr (Or.inr ⟨differs, member⟩)
        · rename_i notLess notGreater
          have same : head.1 = key := le_antisymm (not_lt.mp notLess) (not_lt.mp notGreater)
          simp only [List.mem_cons]
          constructor
          · rintro (rfl | member)
            · exact Or.inl rfl
            · exact Or.inr ⟨same ▸ (later item member).ne', Or.inr member⟩
          · rintro (rfl | ⟨differs, rfl | member⟩)
            · exact Or.inl rfl
            · exact absurd same differs
            · exact Or.inr member

theorem mem_erase_iff (d : SortedDict κ ν) (key : κ) (item : κ × ν) :
    item ∈ (d.erase key).items ↔ item ∈ d.items ∧ item.1 ≠ key := by
  simp [erase, List.mem_filter]

@[simp] theorem get?_set_self (d : SortedDict κ ν) (key : κ) (value : ν) :
    (d.set key value).get? key = some value :=
  (get?_eq_some_iff _ _ _).mpr ((mem_set_iff d key value _).mpr (Or.inl rfl))

theorem get?_set_of_ne (d : SortedDict κ ν) {key other : κ} (value : ν) (differs : other ≠ key) :
    (d.set key value).get? other = d.get? other := by
  apply Option.ext
  intro found
  rw [get?_eq_some_iff, get?_eq_some_iff, mem_set_iff]
  constructor
  · rintro (same | ⟨_, member⟩)
    · exact absurd (congrArg Prod.fst same) differs
    · exact member
  · intro member
    exact Or.inr ⟨differs, member⟩

/-- Erasing, one key after another, those at or after a bound. -/
theorem foldl_erase_from (d : SortedDict κ ν) (bound : κ) (ks : List κ) :
    ∀ (current : SortedDict κ ν), (∀ item ∈ current.items, item ∈ d.items) →
      (∀ item ∈ d.items, item.1 < bound ∨ item.1 ∈ ks ∨ item ∉ current.items) →
      (∀ item ∈ d.items, item.1 < bound → item ∈ current.items) →
      ∀ item, item ∈ (ks.foldl (fun e key => if bound ≤ key then e.erase key else e) current).items ↔
        item ∈ d.items ∧ item.1 < bound := by
  induction ks with
  | nil =>
      intro current sub cover keep item
      constructor
      · intro member
        rcases cover item (sub item member) with less | none | absent
        · exact ⟨sub item member, less⟩
        · cases none
        · exact absurd member absent
      · rintro ⟨member, less⟩
        exact keep item member less
  | cons key ks ih =>
      intro current sub cover keep
      rw [List.foldl_cons]
      by_cases reached : bound ≤ key
      · rw [if_pos reached]
        apply ih
        · intro item member
          exact sub item ((mem_erase_iff _ _ _).mp member).1
        · intro item member
          rcases cover item member with less | listed | absent
          · exact Or.inl less
          · rcases List.mem_cons.mp listed with same | listed
            · refine Or.inr (Or.inr fun kept => ?_)
              exact ((mem_erase_iff _ _ _).mp kept).2 same
            · exact Or.inr (Or.inl listed)
          · exact Or.inr (Or.inr fun kept => absent ((mem_erase_iff _ _ _).mp kept).1)
        · intro item member less
          exact (mem_erase_iff _ _ _).mpr
            ⟨keep item member less, (less.trans_le reached).ne⟩
      · rw [if_neg reached]
        apply ih _ sub _ keep
        intro item member
        rcases cover item member with less | listed | absent
        · exact Or.inl less
        · rcases List.mem_cons.mp listed with same | listed
          · exact Or.inl (same ▸ not_le.mp reached)
          · exact Or.inr (Or.inl listed)
        · exact Or.inr (Or.inr absent)

/-- `for key in list(d.keys()): if key >= bound: del d[key]`. -/
def dropFrom (d : SortedDict κ ν) (bound : κ) : SortedDict κ ν :=
  d.keys.foldl (fun e key => if bound ≤ key then e.erase key else e) d

theorem mem_dropFrom_iff (d : SortedDict κ ν) (bound : κ) (item : κ × ν) :
    item ∈ (d.dropFrom bound).items ↔ item ∈ d.items ∧ item.1 < bound :=
  foldl_erase_from d bound d.keys d (fun _ member => member)
    (fun _ member => Or.inr (Or.inl (List.mem_map_of_mem member)))
    (fun _ member _ => member) item

/-! ## The last item at or before a key -/

theorem bisectLeft_split (d : SortedDict κ ν) (key : κ) :
    ∃ before after, d.items = before ++ after ∧ before.length = d.bisectLeft key ∧
      (∀ item ∈ before, item.1 < key) ∧ (∀ item ∈ after, key ≤ item.1) := by
  refine ⟨d.items.takeWhile fun item => item.1 < key, d.items.dropWhile fun item => item.1 < key,
    List.takeWhile_append_dropWhile.symm, rfl, ?_, ?_⟩
  · intro item member
    simpa using List.mem_takeWhile_imp member
  · have sorted := d.sorted
    rw [← List.takeWhile_append_dropWhile (p := fun item : κ × ν => item.1 < key) (l := d.items)]
      at sorted
    have sortedAfter := (List.pairwise_append.mp sorted).2.1
    cases dropped : d.items.dropWhile fun item => item.1 < key with
    | nil => simp
    | cons head rest =>
        have reached : key ≤ head.1 := by
          have := List.head?_dropWhile_not (fun item : κ × ν => decide (item.1 < key)) d.items
          rw [dropped] at this
          simpa using this
        rw [dropped] at sortedAfter
        intro item member
        rcases List.mem_cons.mp member with rfl | member
        · exact reached
        · exact reached.trans ((List.pairwise_cons.mp sortedAfter).1 item member).le

/-- Bisection finds the last item at or before the key. -/
theorem upTo_getLast?_eq_bisect (d : SortedDict κ ν) (key : κ) :
    (d.upTo key).getLast? =
      match d.items[d.bisectLeft key]? with
      | none => d.items.getLast?
      | some item =>
          if item.1 = key then some item else (d.items.take (d.bisectLeft key)).getLast? := by
  obtain ⟨before, after, split, lengthEq, less, reached⟩ := d.bisectLeft_split key
  have sorted := d.sorted
  have keeps : before.filter (fun item => item.1 ≤ key) = before :=
    List.filter_eq_self.mpr fun item member => by simpa using (less item member).le
  rw [upTo, ← lengthEq, split] at *
  rw [List.filter_append, keeps, List.getElem?_append_right le_rfl, Nat.sub_self]
  cases after with
  | nil => simp
  | cons head rest =>
      have sortedAfter := (List.pairwise_append.mp sorted).2.1
      have beyond : rest.filter (fun item => item.1 ≤ key) = [] := by
        rw [List.filter_eq_nil_iff]
        intro item member
        have := (List.pairwise_cons.mp sortedAfter).1 item member
        simpa using (reached head (List.mem_cons_self ..)).trans_lt this
      simp only [List.getElem?_cons_zero]
      by_cases same : head.1 = key
      · rw [if_pos same, List.filter_cons_of_pos (by simpa using same.le), beyond]
        simp
      · have past : key < head.1 := lt_of_le_of_ne (reached head (List.mem_cons_self ..)) (Ne.symm same)
        rw [if_neg same, List.filter_cons_of_neg (by simpa using past), beyond]
        simp

theorem mem_upTo_iff (d : SortedDict κ ν) (key : κ) (item : κ × ν) :
    item ∈ d.upTo key ↔ item ∈ d.items ∧ item.1 ≤ key := by
  simp [upTo, List.mem_filter]

theorem upTo_getLast?_eq_some_iff (d : SortedDict κ ν) (key : κ) (item : κ × ν) :
    (d.upTo key).getLast? = some item ↔
      item ∈ d.items ∧ item.1 ≤ key ∧ ∀ other ∈ d.items, other.1 ≤ key → other.1 ≤ item.1 := by
  have sorted : (d.upTo key).Pairwise fun a b => a.1 < b.1 := d.sorted.filter _
  have distinct : ∀ a ∈ d.items, ∀ b ∈ d.items, a.1 = b.1 → a = b := by
    intro a ha b hb same
    have left := (get?_eq_some_iff d a.1 a.2).mpr ha
    have right := (get?_eq_some_iff d b.1 b.2).mpr hb
    rw [same, right] at left
    exact Prod.ext same (Option.some.inj left).symm
  constructor
  · intro last
    obtain ⟨initial, split⟩ := List.getLast?_eq_some_iff.mp last
    have member : item ∈ d.upTo key := by rw [split]; simp
    obtain ⟨listed, bound⟩ := (mem_upTo_iff d key item).mp member
    refine ⟨listed, bound, ?_⟩
    intro other otherListed otherBound
    have otherMember := (mem_upTo_iff d key other).mpr ⟨otherListed, otherBound⟩
    rw [split] at otherMember sorted
    rcases List.mem_append.mp otherMember with before | same
    · exact ((List.pairwise_append.mp sorted).2.2 other before item (by simp)).le
    · rw [List.mem_singleton.mp same]
  · rintro ⟨listed, bound, greatest⟩
    have member := (mem_upTo_iff d key item).mpr ⟨listed, bound⟩
    cases last : (d.upTo key).getLast? with
    | none =>
        rw [List.getLast?_eq_none_iff] at last
        rw [last] at member
        cases member
    | some found =>
        obtain ⟨initial, split⟩ := List.getLast?_eq_some_iff.mp last
        have foundMember : found ∈ d.upTo key := by rw [split]; simp
        obtain ⟨foundListed, foundBound⟩ := (mem_upTo_iff d key found).mp foundMember
        have up := greatest found foundListed foundBound
        rw [split] at member sorted
        rcases List.mem_append.mp member with before | same
        · have := (List.pairwise_append.mp sorted).2.2 item before found (by simp)
          exact absurd up (not_le.mpr this)
        · rw [List.mem_singleton.mp same]

theorem upTo_getLast?_eq_none_iff (d : SortedDict κ ν) (key : κ) :
    (d.upTo key).getLast? = none ↔ ∀ item ∈ d.items, key < item.1 := by
  rw [List.getLast?_eq_none_iff, upTo, List.filter_eq_nil_iff]
  simp

/-! ## From assignments -/

/-- The assignments one after the other: the last one of a key counts. -/
def ofList (assignments : List (κ × ν)) : SortedDict κ ν :=
  assignments.foldl (fun d assignment => d.set assignment.1 assignment.2) empty

theorem ext_get? {a b : SortedDict κ ν} (sameValues : ∀ key, a.get? key = b.get? key) : a = b := by
  have distinct : ∀ d : SortedDict κ ν, d.items.Nodup := fun d =>
    d.sorted.imp fun less same => (congrArg Prod.fst same ▸ less).false
  apply ext_items
  refine List.Perm.eq_of_pairwise ?_ a.sorted b.sorted
    ((List.perm_ext_iff_of_nodup (distinct a) (distinct b)).mpr ?_)
  · intro first second _ _ less greater
    exact absurd (less.trans greater) (lt_irrefl _)
  · intro item
    rw [← get?_eq_some_iff, ← get?_eq_some_iff, sameValues]

theorem get?_ofList_concat (assignments : List (κ × ν)) (assignment : κ × ν) (key : κ) :
    (ofList (assignments ++ [assignment])).get? key =
      if key = assignment.1 then some assignment.2 else (ofList assignments).get? key := by
  rw [ofList, List.foldl_append]
  split
  · rename_i same
    rw [same]
    exact get?_set_self _ _ _
  · rename_i differs
    exact get?_set_of_ne _ _ differs

/-- Of distinct keys every assignment counts. -/
theorem get?_ofList {assignments : List (κ × ν)} (distinct : (assignments.map Prod.fst).Nodup)
    (key : κ) (value : ν) :
    (ofList assignments).get? key = some value ↔ (key, value) ∈ assignments := by
  induction assignments using List.reverseRecOn with
  | nil => simp [ofList]
  | append_singleton assignments assignment ih =>
      rw [List.map_append, List.nodup_append] at distinct
      obtain ⟨earlier, -, apart⟩ := distinct
      rw [get?_ofList_concat, List.mem_append, List.mem_singleton]
      split
      · rename_i same
        have fresh : (key, value) ∉ assignments := fun member =>
          apart key (List.mem_map_of_mem member) assignment.1 (by simp) same
        rw [Option.some.injEq]
        constructor
        · rintro rfl
          exact .inr (Prod.ext same rfl)
        · rintro (member | rfl)
          · exact absurd member fresh
          · rfl
      · rename_i differs
        rw [ih earlier]
        constructor
        · exact Or.inl
        · rintro (member | rfl)
          · exact member
          · exact absurd rfl differs

theorem ofList_perm {assignments others : List (κ × ν)} (same : assignments.Perm others)
    (distinct : (assignments.map Prod.fst).Nodup) : ofList assignments = ofList others := by
  apply ext_get?
  intro key
  apply Option.ext
  intro value
  rw [get?_ofList distinct, get?_ofList ((same.map Prod.fst).nodup_iff.mp distinct), same.mem_iff]

/-- Of distinct keys nothing is lost. -/
theorem perm_ofList {assignments : List (κ × ν)} (distinct : (assignments.map Prod.fst).Nodup) :
    (ofList assignments).items.Perm assignments := by
  have distinctItems : (ofList assignments).items.Nodup :=
    (ofList assignments).sorted.imp fun less same => (congrArg Prod.fst same ▸ less).false
  refine (List.perm_ext_iff_of_nodup distinctItems (List.Nodup.of_map _ distinct)).mpr ?_
  intro item
  rw [← get?_eq_some_iff, get?_ofList distinct]

theorem mem_ofList {assignments : List (κ × ν)} {item : κ × ν}
    (stored : item ∈ (ofList assignments).items) : item ∈ assignments := by
  rw [← get?_eq_some_iff] at stored
  induction assignments using List.reverseRecOn with
  | nil => cases stored
  | append_singleton assignments assignment ih =>
      rw [get?_ofList_concat] at stored
      split at stored
      · rename_i same
        have here : item = assignment := Prod.ext same (Option.some.inj stored).symm
        rw [here]
        simp
      · exact List.mem_append_left _ (ih stored)

theorem ofList_items (d : SortedDict κ ν) : ofList d.items = d := by
  have distinct : (d.items.map Prod.fst).Nodup :=
    List.pairwise_map.mpr (d.sorted.imp fun less => less.ne)
  apply ext_get?
  intro key
  apply Option.ext
  intro value
  rw [get?_ofList distinct, get?_eq_some_iff]

/-- The values of every key changed alike. -/
theorem items_ofList_map {μ : Type} (assignments : List (κ × ν)) (f : κ → ν → μ) :
    (ofList (assignments.map fun assignment => (assignment.1, f assignment.1 assignment.2))).items =
      (ofList assignments).items.map fun item => (item.1, f item.1 item.2) := by
  have single : ∀ (items : List (κ × ν)) (key : κ) (value : ν),
      insertItem key (f key value) (items.map fun item => (item.1, f item.1 item.2)) =
        (insertItem key value items).map fun item => (item.1, f item.1 item.2) := by
    intro items key value
    induction items with
    | nil => rfl
    | cons head rest ih =>
        simp only [List.map_cons, insertItem]
        split
        · rfl
        · split
          · rw [List.map_cons, ih]
          · rfl
  induction assignments using List.reverseRecOn with
  | nil => rfl
  | append_singleton assignments assignment ih =>
      rw [List.map_append, ofList, ofList, List.foldl_append, List.foldl_append]
      change insertItem _ _ (ofList _).items = _
      rw [ih, single]
      rfl

end SortedDict
