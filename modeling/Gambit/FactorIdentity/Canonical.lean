import Gambit.Python
import Gambit.Lib.JsonRoundTrip
import Gambit.Lib.Raising

/-!
# `_canonicalize`

Mappings become dicts in key order and sequences lists, all the way down; what
JSON cannot carry is refused, with the path to it.
-/

set_option autoImplicit false

namespace Gambit.FactorIdentity

open PythonJson Raising

variable {φ : Type}

/-- The results in order, or the first exception. -/
def collect : List (String × Except Exn (PyValue φ)) → Except Exn (List (String × PyValue φ))
  | [] => .ok []
  | (key, result) :: rest => do
      let value ← result
      let fields ← collect rest
      .ok ((key, value) :: fields)

mutual

/-- `_canonicalize` -/
def canonicalize : PyValue φ → String → Except Exn (PyValue φ)
  | .none, _ => .ok .none
  | .str text, _ => .ok (.str text)
  | .bool value, _ => .ok (.bool value)
  | .int value, _ => .ok (.int value)
  | .nonFinite, path => .error (.valueError (path ++ " contains a non-finite float"))
  | .float value, _ => .ok (.float value)
  | .mapping _ entries, path =>
      if entries.any fun entry => entry.1.text = "" then
        .error (.valueError (path ++ " mapping keys must be non-empty strings"))
      else do
        let fields ← collect (SortedDict.ofList (canonicalEntries entries path)).items
        .ok (dict fields)
  | .sequence _ items, path => do
      let items ← canonicalItems items path 0
      .ok (.sequence .list items)
  | .unsupported typeName, path =>
      .error (.typeError (path ++ " contains unsupported value type " ++ typeName))

def canonicalItems : List (PyValue φ) → String → Nat → Except Exn (List (PyValue φ))
  | [], _, _ => .ok []
  | item :: rest, path, index => do
      let item ← canonicalize item (path ++ "[" ++ toString index ++ "]")
      let rest ← canonicalItems rest path (index + 1)
      .ok (item :: rest)

/-- `value[key]` of every key; only the keys of the mapping are looked at in the end. -/
def canonicalEntries : List (Key × PyValue φ) → String → List (String × Except Exn (PyValue φ))
  | [], _ => []
  | (key, value) :: rest, path =>
      (key.text, canonicalize value (path ++ "." ++ key.text)) :: canonicalEntries rest path

end

theorem canonicalEntries_eq (entries : List (Key × PyValue φ)) (path : String) :
    canonicalEntries entries path = entries.map fun entry =>
      (entry.1.text, canonicalize entry.2 (path ++ "." ++ entry.1.text)) := by
  induction entries with
  | nil => rfl
  | cons entry rest ih => rw [canonicalEntries, ih, List.map_cons]

theorem collect_ok {results : List (String × Except Exn (PyValue φ))} {fields : List (String × PyValue φ)} :
    collect results = .ok fields ↔ results = fields.map fun field => (field.1, .ok field.2) := by
  induction results generalizing fields with
  | nil =>
      cases fields with
      | nil => exact ⟨fun _ => rfl, fun _ => rfl⟩
      | cons field fields =>
          constructor
          · intro run
            cases run
          · intro same
            cases same
  | cons item results ih =>
      obtain ⟨key, result⟩ := item
      simp only [collect, bind_ok, ih]
      constructor
      · rintro ⟨value, rfl, others, rfl, same⟩
        cases same
        rfl
      · intro same
        cases fields with
        | nil => cases same
        | cons field fields =>
            obtain ⟨first, rest⟩ := List.cons.inj same
            cases first
            exact ⟨_, rfl, _, rest, rfl⟩

/-! ## What comes out -/

/-- Canonical: with no empty key. -/
abbrev IsCanonical (value : PyValue φ) : Prop := Plain (fun key => key ≠ "") value

mutual

theorem canonicalize_isCanonical : ∀ (value : PyValue φ) (path : String) (result : PyValue φ),
    canonicalize value path = .ok result → IsCanonical result
  | .none, _, _, run => by cases run; exact .none
  | .str _, _, _, run => by cases run; exact .str _
  | .bool _, _, _, run => by cases run; exact .bool _
  | .int _, _, _, run => by cases run; exact .int _
  | .float _, _, _, run => by cases run; exact .float _
  | .nonFinite, _, _, run => by cases run
  | .unsupported _, _, _, run => by cases run
  | .sequence _ items, path, _, run => by
      rw [canonicalize, bind_ok] at run
      obtain ⟨results, collected, same⟩ := run
      cases same
      exact .list (canonicalItems_isCanonical items path 0 results collected)
  | .mapping _ entries, path, _, run => by
      rw [canonicalize, refuse_ok, bind_ok] at run
      obtain ⟨keys, fields, collected, same⟩ := run
      cases same
      rw [collect_ok] at collected
      have sorted := (SortedDict.ofList (canonicalEntries entries path)).sorted
      have stored : ∀ field ∈ fields,
          ((field.1, .ok field.2) : String × Except Exn (PyValue φ)) ∈ canonicalEntries entries path := by
        intro field member
        apply SortedDict.mem_ofList
        rw [collected]
        exact List.mem_map_of_mem member
      rw [collected, List.pairwise_map] at sorted
      refine .dict sorted ?_ ?_
      · intro field member empty
        have entry := stored field member
        rw [canonicalEntries_eq, List.mem_map] at entry
        obtain ⟨entry, present, same⟩ := entry
        have text : entry.1.text = "" := (Prod.ext_iff.mp same).1.trans empty
        exact keys (List.any_eq_true.mpr ⟨entry, present, decide_eq_true text⟩)
      · intro field member
        exact canonicalEntries_isCanonical entries path field.1 field.2 (stored field member)

theorem canonicalItems_isCanonical : ∀ (items : List (PyValue φ)) (path : String) (index : Nat)
    (results : List (PyValue φ)), canonicalItems items path index = .ok results →
      ∀ result ∈ results, IsCanonical result
  | [], _, _, _, run => by cases run; simp
  | item :: rest, path, index, _, run => by
      simp only [canonicalItems, bind_ok] at run
      obtain ⟨first, collected, others, collectedOthers, same⟩ := run
      cases same
      intro result member
      rcases List.mem_cons.mp member with rfl | later
      · exact canonicalize_isCanonical item _ _ collected
      · exact canonicalItems_isCanonical rest path (index + 1) others collectedOthers result later

theorem canonicalEntries_isCanonical : ∀ (entries : List (Key × PyValue φ)) (path key : String)
    (result : PyValue φ), (key, .ok result) ∈ canonicalEntries entries path → IsCanonical result
  | [], _, _, _, member => by cases member
  | (_, value) :: rest, path, key, result, member => by
      rw [canonicalEntries, List.mem_cons] at member
      rcases member with here | later
      · exact canonicalize_isCanonical value _ _ (Prod.ext_iff.mp here).2.symm
      · exact canonicalEntries_isCanonical rest path key result later

end

theorem canonicalItems_of_each {items : List (PyValue φ)} (path : String)
    (each : ∀ item ∈ items, ∀ path, canonicalize item path = .ok item) (index : Nat) :
    canonicalItems items path index = .ok items := by
  induction items generalizing index with
  | nil => rfl
  | cons item items ih =>
      rw [canonicalItems, each item List.mem_cons_self,
        ih (fun item member => each item (List.mem_cons_of_mem _ member))]
      rfl

/-- What is canonical stays as it is. -/
theorem canonicalize_of_isCanonical {value : PyValue φ} (canonical : IsCanonical value) (path : String) :
    canonicalize value path = .ok value := by
  induction canonical generalizing path with
  | none | bool _ | int _ | float _ | str _ => rfl
  | list _ ih =>
      rw [canonicalize, canonicalItems_of_each path ih]
      rfl
  | @dict fields sorted keys _ ih =>
      have entries : canonicalEntries (fields.map fun field => (Key.str field.1, field.2)) path =
          fields.map fun field => (field.1, .ok field.2) := by
        rw [canonicalEntries_eq, List.map_map]
        exact List.map_congr_left fun field member => by
          simp only [Function.comp_apply, Key.text, ih field member]
      have increasing : (fields.map fun field =>
          ((field.1, .ok field.2) : String × Except Exn (PyValue φ))).Pairwise fun a b => a.1 < b.1 :=
        List.pairwise_map.mpr sorted
      have ordered := congrArg SortedDict.items (SortedDict.ofList_items ⟨_, increasing⟩)
      change (SortedDict.ofList (fields.map fun field => (field.1, Except.ok field.2))).items =
        fields.map fun field => (field.1, Except.ok field.2) at ordered
      rw [dict, canonicalize, if_neg, entries, ordered, collect_ok.mpr rfl]
      · rfl
      · rw [List.any_eq_true]
        rintro ⟨entry, member, empty⟩
        obtain ⟨field, present, rfl⟩ := List.mem_map.mp member
        exact keys field present (of_decide_eq_true empty)

theorem canonicalize_idempotent {value result : PyValue φ} {path : String}
    (run : canonicalize value path = .ok result) (again : String) :
    canonicalize result again = .ok result :=
  canonicalize_of_isCanonical (canonicalize_isCanonical value path result run) again

/-! ## Insertion order -/

/-- The same structure, with the mappings in it built in other orders. -/
inductive Reordered : PyValue φ → PyValue φ → Prop
  | refl (value : PyValue φ) : Reordered value value
  | trans {first second third : PyValue φ} (left : Reordered first second)
      (right : Reordered second third) : Reordered first third
  | entries (isDict : Bool) {entries others : List (Key × PyValue φ)} (same : entries.Perm others)
      (distinct : (entries.map Prod.fst).Nodup) :
      Reordered (.mapping isDict entries) (.mapping isDict others)
  | inEntry (isDict : Bool) (before after : List (Key × PyValue φ)) (key : Key)
      {value other : PyValue φ} (inner : Reordered value other) :
      Reordered (.mapping isDict (before ++ (key, value) :: after))
        (.mapping isDict (before ++ (key, other) :: after))
  | inItem (type : SequenceType) (before after : List (PyValue φ)) {item other : PyValue φ}
      (inner : Reordered item other) :
      Reordered (.sequence type (before ++ item :: after)) (.sequence type (before ++ other :: after))

theorem canonicalItems_inItem {item other : PyValue φ}
    (same : ∀ path, canonicalize item path = canonicalize other path)
    (before after : List (PyValue φ)) (path : String) (index : Nat) :
    canonicalItems (before ++ item :: after) path index =
      canonicalItems (before ++ other :: after) path index := by
  induction before generalizing index with
  | nil => rw [List.nil_append, List.nil_append, canonicalItems, canonicalItems, same]
  | cons first before ih =>
      rw [List.cons_append, List.cons_append, canonicalItems, canonicalItems, ih]

/-- Keys with a text have it for themselves. -/
theorem distinct_texts {keys : List Key} (noneEmpty : ∀ key ∈ keys, key.text ≠ "") :
    ∀ key ∈ keys, ∀ other ∈ keys, key.text = other.text → key = other := by
  intro key present other presentOther same
  cases key with
  | other => exact absurd rfl (noneEmpty _ present)
  | str text =>
      cases other with
      | other => exact absurd rfl (noneEmpty _ presentOther)
      | str text' => exact congrArg Key.str same

theorem canonicalize_reordered {value other : PyValue φ} (reordered : Reordered value other) :
    ∀ path, canonicalize value path = canonicalize other path := by
  induction reordered with
  | refl value => exact fun _ => rfl
  | trans _ _ left right => exact fun path => (left path).trans (right path)
  | @entries isDict entries others same distinct =>
      intro path
      have anyEmpty : (entries.any fun entry => entry.1.text = "") =
          others.any fun entry => entry.1.text = "" := same.any_eq
      rw [canonicalize, canonicalize, anyEmpty]
      split
      · rfl
      · rename_i noneEmpty
        have fields : SortedDict.ofList (canonicalEntries entries path) =
            SortedDict.ofList (canonicalEntries others path) := by
          rw [canonicalEntries_eq, canonicalEntries_eq]
          refine SortedDict.ofList_perm (same.map _) ?_
          have nonempty : ∀ key ∈ entries.map Prod.fst, key.text ≠ "" := by
            intro key member empty
            have member' := (same.map Prod.fst).mem_iff.mp member
            obtain ⟨entry, present, rfl⟩ := List.mem_map.mp member'
            exact noneEmpty (List.any_eq_true.mpr ⟨entry, present, decide_eq_true empty⟩)
          have texts := List.Nodup.map_on (f := Key.text) (distinct_texts nonempty) distinct
          simpa [List.map_map, Function.comp_def] using texts
        rw [fields]
  | inEntry isDict before after key _ same =>
      intro path
      have anyEmpty : ∀ value : PyValue φ,
          ((before ++ (key, value) :: after).any fun entry => entry.1.text = "") =
            ((before.any fun entry => entry.1.text = "") || (decide (key.text = "") ||
              after.any fun entry => entry.1.text = "")) := by
        intro value
        rw [List.any_append, List.any_cons]
      rw [canonicalize, canonicalize, anyEmpty, anyEmpty, canonicalEntries_eq, canonicalEntries_eq,
        List.map_append, List.map_append, List.map_cons, List.map_cons, same]
  | inItem type before after _ same =>
      intro path
      rw [canonicalize, canonicalize, canonicalItems_inItem same]

end Gambit.FactorIdentity
