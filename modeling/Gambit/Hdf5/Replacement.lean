import Mathlib
import Gambit.Hdf5.Reach

/-!
# Replacement survives interruption

Attempts to write follow one another, each stopped wherever it may be.  For a
key no other written key is nested with, the reader obtains the set of the last
write that returned, or that of a write stopped since.
-/

set_option autoImplicit false

namespace Gambit.Hdf5

open PathTrees Interruptions Raising

variable {α : Type} {np : NumPy α} {key other : Key} {file : H5File α} {set : ArraySet α}
  {standing : Option (ArraySet α)}

/-- A call of `np_arrays_to_hdf5` and what the world does to it. -/
structure Attempt (α : Type) where
  request : Request α
  fate : Fate Exn

def Attempt.run (np : NumPy α) (attempt : Attempt α) (file : H5File α) :
    Except (Raised (Halt Exn) (Run (H5File α))) (Run (H5File α)) :=
  npArraysToHdf5 np attempt.fate attempt.request ⟨file, 0⟩

/-- The file it leaves, returned or not. -/
def Attempt.leaves (np : NumPy α) (attempt : Attempt α) (file : H5File α) : H5File α :=
  match attempt.run np file with
  | .ok run => run.state
  | .error stop => stop.state.state

def Attempt.returns (np : NumPy α) (attempt : Attempt α) (file : H5File α) : Bool :=
  match attempt.run np file with
  | .ok _ => true
  | .error _ => false

def emptyFile : H5File α := Tree.bare OrderedDict.empty

/-- The file after a sequence of attempts. -/
def fileAfter (np : NumPy α) (attempts : List (Attempt α)) : H5File α :=
  attempts.foldl (fun file attempt => attempt.leaves np file) emptyFile

/-- The key a request writes and the set it stores there, if it has any to store. -/
def Request.written (np : NumPy α) (request : Request α) : Option (Key × ArraySet α) :=
  match request.admission np with
  | .ok (some (key, rowCount)) => (request.arrays np rowCount).toOption.map (key, ·)
  | _ => none

/-! ## What stands for a key, as a register -/

/-- An attempt replaces what stands for the key by its own set, complete, or leaves it;
one that returns from a write to the key does replace it. -/
inductive Renews (np : NumPy α) (key : Key) (attempt : Attempt α) (returned : Bool) :
    Option (ArraySet α) → Option (ArraySet α) → Prop
  | kept (standing : Option (ArraySet α))
      (unwritten : returned = true → ∀ set, attempt.request.written np ≠ some (key, set)) :
      Renews np key attempt returned standing standing
  | renewed (standing : Option (ArraySet α)) (set : ArraySet α)
      (writes : attempt.request.written np = some (key, set)) :
      Renews np key attempt returned standing (some set)

/-- What may stand for the key after the attempts: nothing before the first write. -/
inductive Stood (np : NumPy α) (key : Key) : List (Attempt α) → Option (ArraySet α) → Prop
  | start : Stood np key [] none
  | step {attempts : List (Attempt α)} {attempt : Attempt α}
      {standing next : Option (ArraySet α)} (before : Stood np key attempts standing)
      (renews : Renews np key attempt (attempt.returns np (fileAfter np attempts)) standing next) :
      Stood np key (attempts ++ [attempt]) next

/-- The request is for the key, or for one that is not nested with it. -/
def Unnested (key : Key) (attempt : Attempt α) : Prop :=
  ∀ other, normalizeHdf5Key attempt.request.key = .ok other → other = key ∨ key.Apart other

theorem admit_key {request : Request α} {rowCount : Nat}
    (admitted : request.admission np = .ok (some (key, rowCount))) :
    normalizeHdf5Key request.key = .ok key := by
  obtain ⟨normal, normalized, admitted⟩ := bind_ok.mp admitted
  obtain ⟨_, _, admitted⟩ := bind_ok.mp admitted
  obtain ⟨rows, _, admitted⟩ := bind_ok.mp admitted
  split at admitted
  · cases admitted
  · obtain ⟨_, _, admitted⟩ := bind_ok.mp admitted
    cases admitted
    exact normalized

/-- What one attempt makes of what stands for a key. -/
theorem attempt_renews (attempt : Attempt α) (unnested : Unnested key attempt)
    (stands : Standing key standing file) :
    ∃ next, Renews np key attempt (attempt.returns np file) standing next ∧
      Standing key next (attempt.leaves np file) := by
  have untouched : (∀ set, attempt.request.written np ≠ some (key, set)) →
      Standing key standing (attempt.leaves np file) →
      ∃ next, Renews np key attempt (attempt.returns np file) standing next ∧
        Standing key next (attempt.leaves np file) :=
    fun unwritten stands => ⟨standing, .kept standing fun _ => unwritten, stands⟩
  cases admitted : attempt.request.admission np with
  | error error =>
      apply untouched
      · simp [Request.written, admitted]
      · simpa [Attempt.leaves, Attempt.run, npArraysToHdf5, compute, raiseIn, Except.mapError,
          admitted, bind, Except.bind] using stands
  | ok plan =>
      cases plan with
      | none =>
          apply untouched
          · simp [Request.written, admitted]
          · simpa [Attempt.leaves, Attempt.run, npArraysToHdf5, compute, raiseIn, Except.mapError,
              admitted, bind, Except.bind] using stands
      | some plan =>
          obtain ⟨target, rowCount⟩ := plan
          have same : attempt.run np file =
              replaceGroup np attempt.fate attempt.request target rowCount ⟨file, 0⟩ := by
            simp [Attempt.run, npArraysToHdf5, compute, raiseIn, Except.mapError, admitted, bind,
              Except.bind]
          rcases unnested target (admit_key admitted) with rfl | apart
          · have written : ∀ set, attempt.request.arrays np rowCount = .ok set →
                attempt.request.written np = some (target, set) := by
              intro set arrays
              simp [Request.written, admitted, arrays, Except.toOption]
            have result := replaceGroup_ensures np attempt.fate
              attempt.request target rowCount ⟨file, 0⟩ stands
            rw [← same] at result
            unfold Attempt.leaves Attempt.returns
            cases done : attempt.run np file with
            | ok run =>
                rw [done] at result
                obtain ⟨set, arrays, installed⟩ := result
                exact ⟨some set, .renewed standing set (written set arrays), installed.stands⟩
            | error stop =>
                rw [done] at result
                rcases result with old | ⟨set, arrays, new⟩
                · exact ⟨standing, .kept standing (by simp), old⟩
                · exact ⟨some set, .renewed standing set (written set arrays), new⟩
          · have foreign : target ≠ key := by
              rintro rfl
              exact apart.notAbove List.prefix_rfl
            apply untouched
            · intro set written
              simp only [Request.written, admitted, Option.map_eq_some_iff, Prod.mk.injEq] at written
              obtain ⟨_, _, sameKey, _⟩ := written
              exact foreign sameKey
            · have result := replaceGroup_touches np attempt.fate
                attempt.request target rowCount ⟨file, 0⟩ (Touches.refl file)
              rw [← same] at result
              unfold Attempt.leaves
              cases done : attempt.run np file with
              | ok run =>
                  rw [done] at result
                  exact stands.of_touches apart result
              | error stop =>
                  rw [done] at result
                  exact stands.of_touches apart result

theorem empty_standing (key : Key) : Standing key none (emptyFile : H5File α) := by
  have missing : ∀ {parent : List String} {name : String},
      (emptyFile : H5File α).node (parent ++ [name]) = none := by
    intro parent name
    cases parent <;> rfl
  exact {
    openAbove := by
      intro path _ content leaf
      cases path <;> cases leaf
    content := ⟨missing, missing⟩ }

/-- Whatever has been attempted, something complete or nothing stands for the key. -/
theorem attempts_stand (np : NumPy α) (attempts : List (Attempt α))
    (unnested : ∀ attempt ∈ attempts, Unnested key attempt) :
    ∃ standing, Stood np key attempts standing ∧ Standing key standing (fileAfter np attempts) := by
  induction attempts using List.reverseRecOn with
  | nil => exact ⟨none, .start, empty_standing key⟩
  | append_singleton attempts attempt ih =>
      obtain ⟨standing, stood, stands⟩ :=
        ih fun earlier member => unnested earlier (List.mem_append_left _ member)
      obtain ⟨next, renews, stands⟩ :=
        attempt_renews attempt (unnested attempt (by simp)) stands
      refine ⟨next, .step stood renews, ?_⟩
      unfold fileAfter at stands ⊢
      rw [List.foldl_append]
      exact stands

/-- The reader obtains, before and after the last of any attempts, a complete set that
stands there; the last attempt renews it or leaves it. -/
theorem replacement_survives_interruption (np : NumPy α) (name : String) (key : Key)
    (normal : normalizeHdf5Key name = .ok key) (attempts : List (Attempt α)) (last : Attempt α)
    (unnested : ∀ attempt ∈ attempts ++ [last], Unnested key attempt) :
    ∃ standing next, Stood np key attempts standing ∧
      Renews np key last (last.returns np (fileAfter np attempts)) standing next ∧
      (∀ limits, hdf5ToNpArrays np (fileAfter np attempts) name limits =
        obtained np limits standing) ∧
      ∀ limits, hdf5ToNpArrays np (fileAfter np (attempts ++ [last])) name limits =
        obtained np limits next := by
  obtain ⟨standing, stood, stands⟩ := attempts_stand np attempts
    fun earlier member => unnested earlier (List.mem_append_left _ member)
  obtain ⟨next, renews, after⟩ := attempt_renews last (unnested last (by simp)) stands
  refine ⟨standing, next, stood, renews, fun limits => reads_standing stands normal, ?_⟩
  intro limits
  refine reads_standing ?_ normal
  unfold fileAfter at after ⊢
  rw [List.foldl_append]
  exact after

/-! ## A run -/

/-- Columns of 64-bit integers alone. -/
def integerColumns : NumPy (List Int) where
  kind _ := .other
  ndim _ := 1
  len := List.length
  nbytes array := 8 * array.length
  itemsize _ := 8
  hasobject _ := false
  textBytes _ := 0
  astype dtype array :=
    if dtype = "i8" then .ok array else .error (.typeError "data type not understood")
  encode _ := .error (.typeError "string operation on non-string array")
  objectBytes array := .ok array
  taggedDatetimes array := .ok array
  stored array := .ok array
  decode _ := .error (.typeError "string operation on non-string array")
  unicode array := .ok array

def integerRequest (key column : String) (array : List Int) : Request (List Int) where
  data := OrderedDict.empty.set column array
  key := key
  dtypes := none
  asUtf8 := none
  limits := defaultLimits
  timestamp := "2026-01-02T00:00:00+00:00"

/-- The process dies before the statement with the number. -/
def diesAt (statement : Nat) : Fate Exn := fun clock => if clock = statement then some .died else none

def tickKey : Key := ⟨["ticks"], "es", by decide⟩

/-- A write, and a second one that dies once the first set has been set aside. -/
theorem replacement_survives_death_in_exchange :
    ∃ standing next,
      Stood integerColumns tickKey [⟨integerRequest "ticks/es" "price" [1, 2], undisturbed⟩]
          standing ∧
        Renews integerColumns tickKey ⟨integerRequest "ticks/es" "price" [3], diesAt 19⟩
          (Attempt.returns integerColumns
            ⟨integerRequest "ticks/es" "price" [3], diesAt 19⟩
            (fileAfter integerColumns
              [⟨integerRequest "ticks/es" "price" [1, 2], undisturbed⟩])) standing next ∧
        (∀ limits, hdf5ToNpArrays integerColumns
            (fileAfter integerColumns [⟨integerRequest "ticks/es" "price" [1, 2], undisturbed⟩])
            "ticks/es" limits = obtained integerColumns limits standing) ∧
        ∀ limits, hdf5ToNpArrays integerColumns
            (fileAfter integerColumns
              ([⟨integerRequest "ticks/es" "price" [1, 2], undisturbed⟩] ++
                [⟨integerRequest "ticks/es" "price" [3], diesAt 19⟩]))
            "ticks/es" limits = obtained integerColumns limits next := by
  have normal : normalizeHdf5Key "ticks/es" = .ok tickKey := by decide +kernel
  refine replacement_survives_interruption integerColumns "ticks/es" tickKey normal _ _ ?_
  intro attempt member other target
  have same : normalizeHdf5Key attempt.request.key = .ok tickKey := by
    simp only [List.cons_append, List.nil_append, List.mem_cons, List.not_mem_nil, or_false] at member
    rcases member with rfl | rfl
    · exact normal
    · exact normal
  exact .inl (Except.ok.inj (target.symm.trans same))

end Gambit.Hdf5
