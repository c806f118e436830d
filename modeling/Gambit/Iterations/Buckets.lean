import Gambit.Iterations.SparseIterations

/-!
# Buckets as lists

What each method of a bucket view does to the list that the container holds at
its index, and that it leaves the other lists alone.
-/

set_option autoImplicit false

namespace Gambit.Iterations

open PythonLists

variable {α β γ : Type}

/-- No empty bucket is stored, and none out of range. -/
def SparseIterations.Sound (self : SparseIterations α) : Prop :=
  ∀ index values, self.buckets.get? index = some values → values ≠ [] ∧ index < self.size

/-- One list has been replaced. -/
structure Holds (before : SparseIterations α) (bucket : Nat) (values : List α)
    (after : SparseIterations α) : Prop where
  size : after.size = before.size
  sound : after.Sound
  here : after.stored bucket = values
  others : ∀ other, other ≠ bucket → after.stored other = before.stored other

section Holds

variable {before between after : SparseIterations α} {bucket : Nat} {values values' : List α}

theorem Holds.refl (sound : before.Sound) : Holds before bucket (before.stored bucket) before :=
  ⟨rfl, sound, rfl, fun _ _ => rfl⟩

theorem Holds.trans (first : Holds before bucket values between)
    (second : Holds between bucket values' after) : Holds before bucket values' after where
  size := second.size.trans first.size
  sound := second.sound
  here := second.here
  others other apart := (second.others other apart).trans (first.others other apart)

theorem stored_set (buckets : OrderedDict Nat (List α)) (size index other : Nat) (values : List α) :
    SparseIterations.stored ⟨size, buckets.set index values⟩ other =
      if other = index then values else SparseIterations.stored ⟨size, buckets⟩ other := by
  unfold SparseIterations.stored
  rw [OrderedDict.get?_set]
  split <;> rfl

theorem set_holds (sound : before.Sound) (inside : bucket < before.size) (filled : values ≠ []) :
    Holds before bucket values { before with buckets := before.buckets.set bucket values } where
  size := rfl
  sound index found stored := by
    change (before.buckets.set bucket values).get? index = some found at stored
    rw [OrderedDict.get?_set] at stored
    split at stored
    · rename_i same
      cases stored
      exact ⟨filled, same ▸ inside⟩
    · exact sound index found stored
  here := by rw [stored_set, if_pos rfl]
  others other apart := by rw [stored_set, if_neg apart]

theorem replace_holds (sound : before.Sound) (inside : bucket < before.size) :
    Holds before bucket values (before.replace bucket values) := by
  unfold SparseIterations.replace
  by_cases empty : values = []
  · rw [if_pos empty, empty]
    refine ⟨rfl, fun index found stored => ?_, ?_, fun other apart => ?_⟩
    · change (before.buckets.erase bucket).get? index = some found at stored
      rw [OrderedDict.get?_erase] at stored
      split at stored
      · cases stored
      · exact sound index found stored
    · change ((before.buckets.erase bucket).get? bucket).getD [] = []
      rw [OrderedDict.get?_erase, if_pos rfl]
      rfl
    · change ((before.buckets.erase bucket).get? other).getD [] = _
      rw [OrderedDict.get?_erase_of_ne _ apart]
      rfl
  · rw [if_neg empty]
    exact set_holds sound inside empty

theorem index_of_lt (inside : bucket < before.size) : before.index bucket = .ok bucket := by
  have counted : ¬ (bucket : Int) < 0 := by omega
  simp only [SparseIterations.index, if_neg counted]
  rw [if_neg (by omega)]
  rfl

theorem appendAt_holds (sound : before.Sound) (inside : bucket < before.size) (value : α) :
    ∃ after, before.appendAt bucket value = .ok after ∧
      Holds before bucket (before.stored bucket ++ [value]) after := by
  unfold SparseIterations.appendAt
  rw [index_of_lt inside]
  cases found : before.buckets.get? bucket with
  | none =>
      have empty : before.stored bucket = [] := by rw [SparseIterations.stored, found]; rfl
      rw [empty]
      exact ⟨_, by simp only [bind, Except.bind, found], set_holds sound inside (by simp)⟩
  | some values =>
      have here : before.stored bucket = values := by rw [SparseIterations.stored, found]; rfl
      rw [here]
      exact ⟨_, by simp only [bind, Except.bind, found], set_holds sound inside (by simp)⟩

end Holds

/-! ## Calls -/

section Calls

variable {self before after : SparseIterations α} {call : Call α β} {next : β → Call α γ} {value : β}
  {error : ListError}

theorem bind_ok (run : call before = some (.ok value, after)) : (call >>= next) before = next value after := by
  simp [bind, ExceptT.bind, ExceptT.mk, StateT.bind, ExceptT.bindCont, run]

theorem bind_raised (run : call before = some (.error error, after)) :
    (call >>= next) before = some (.error error, after) := by
  simp [bind, ExceptT.bind, ExceptT.mk, StateT.bind, ExceptT.bindCont, run]
  rfl

theorem bind_diverges (run : call before = none) : (call >>= next) before = none := by
  simp [bind, ExceptT.bind, ExceptT.mk, StateT.bind, run]

theorem get_bind {next : SparseIterations α → Call α β} : (get >>= next) self = next self self := rfl

/-- A call that puts one list in the place of another, or raises and changes nothing. -/
def Changes (call : Call α β) (self : SparseIterations α) (bucket : Nat)
    (outcome : Except ListError β × List α) : Prop :=
  ∃ after, call self = some (outcome.1, after) ∧ Holds self bucket outcome.2 after ∧
    ∀ error, outcome.1 = .error error → after = self

variable {bucket : Nat} {values : List α}

theorem Changes.reads (sound : self.Sound) {result : Except ListError β}
    (run : call self = some (result, self)) : Changes call self bucket (result, self.stored bucket) :=
  ⟨self, run, .refl sound, fun _ _ => rfl⟩

/-- What comes back after a change. -/
theorem Changes.andReturn (changes : Changes call self bucket (.ok value, values)) (answer : β → γ) :
    Changes (call >>= fun value => pure (answer value)) self bucket (.ok (answer value), values) := by
  obtain ⟨after, run, held, -⟩ := changes
  exact ⟨after, bind_ok run, held, nofun⟩

theorem Changes.raises (changes : Changes call self bucket (.error error, values)) (answer : β → γ) :
    Changes (call >>= fun value => pure (answer value)) self bucket (.error error, values) := by
  obtain ⟨after, run, held, same⟩ := changes
  exact ⟨after, bind_raised run, held, fun _ _ => same error rfl⟩

/-- With enough steps a call comes back, always the same way. -/
def Settles (call : Nat → Call α β) (self : SparseIterations α) (bucket : Nat)
    (outcome : Except ListError β × List α) : Prop :=
  ∃ enough after, (∀ fuel, enough ≤ fuel → call fuel self = some (outcome.1, after)) ∧
    Holds self bucket outcome.2 after ∧ ∀ error, outcome.1 = .error error → after = self

theorem Changes.settles {outcome : Except ListError β × List α}
    (changes : Changes call self bucket outcome) : Settles (fun _ => call) self bucket outcome := by
  obtain ⟨after, run, held⟩ := changes
  exact ⟨0, after, fun _ _ => run, held⟩

theorem Settles.andReturn {call : Nat → Call α β} (settles : Settles call self bucket (.ok value, values))
    (answer : β → γ) : Settles (fun fuel => call fuel >>= fun value => pure (answer value)) self bucket
      (.ok (answer value), values) := by
  obtain ⟨enough, after, run, held, -⟩ := settles
  exact ⟨enough, after, fun fuel reached => bind_ok (run fuel reached), held, nofun⟩

end Calls

/-! ## Methods of the bucket -/

namespace Bucket

section Methods

variable {self : SparseIterations α} {bucket : Nat}

theorem values_run (inside : bucket < self.size) :
    values bucket self = some (.ok (self.stored bucket), self) := by
  unfold values
  rw [get_bind, SparseIterations.readAt, index_of_lt inside]
  rfl

theorem getItem_run (inside : bucket < self.size) (index : Int) :
    getItem bucket index self = some (PythonLists.getItem (self.stored bucket) index, self) :=
  bind_ok (values_run inside)

theorem replaceBy_ok (sound : self.Sound) (inside : bucket < self.size)
    (change : List α → Except ListError (List α)) {values : List α}
    (changed : change (self.stored bucket) = .ok values) :
    Changes (replaceBy bucket change) self bucket (.ok (), values) := by
  have result : (Call.result (change (self.stored bucket)) : Call α (List α)) self =
      some (.ok values, self) := by rw [changed]; rfl
  refine ⟨self.replace bucket values, ?_, replace_holds sound inside, nofun⟩
  rw [replaceBy, bind_ok (values_run inside), bind_ok result]
  rfl

theorem replaceBy_error (sound : self.Sound) (inside : bucket < self.size)
    (change : List α → Except ListError (List α)) {error : ListError}
    (raised : change (self.stored bucket) = .error error) :
    Changes (replaceBy bucket change) self bucket (.error error, self.stored bucket) := by
  have result : (Call.result (change (self.stored bucket)) : Call α (List α)) self =
      some (.error error, self) := by rw [raised]; rfl
  refine ⟨self, ?_, .refl sound, fun _ _ => rfl⟩
  rw [replaceBy, bind_ok (values_run inside), bind_raised result]

theorem append_changes (sound : self.Sound) (inside : bucket < self.size) (value : α) :
    Changes (append bucket value) self bucket (.ok (), self.stored bucket ++ [value]) := by
  obtain ⟨after, appended, held⟩ := appendAt_holds sound inside value
  have result : (Call.result (self.appendAt bucket value) : Call α _) self =
      some (.ok after, self) := by rw [appended]; rfl
  refine ⟨after, ?_, held, nofun⟩
  rw [append, get_bind, bind_ok result]
  rfl

theorem pop_ok (sound : self.Sound) (inside : bucket < self.size) {index : Int} {value : α}
    {rest : List α} (popped : PythonLists.pop (self.stored bucket) index = .ok (value, rest)) :
    Changes (pop bucket index) self bucket (.ok value, rest) := by
  obtain ⟨read, deleted⟩ := pop_eq_ok popped
  have result : getItem bucket index self = some (.ok value, self) := by
    rw [getItem_run inside, read]
  obtain ⟨after, run, held, -⟩ := (replaceBy_ok sound inside
    (fun values => PythonLists.delItem values index) deleted).andReturn fun _ => value
  exact ⟨after, (bind_ok result).trans run, held, nofun⟩

theorem pop_error (sound : self.Sound) (inside : bucket < self.size) {index : Int} {error : ListError}
    (raised : PythonLists.pop (self.stored bucket) index = .error error) :
    Changes (pop bucket index) self bucket (.error error, self.stored bucket) := by
  have result : getItem bucket index self = some (.error error, self) := by
    rw [getItem_run inside, pop_eq_error raised]
  exact .reads sound (bind_raised result)

/-- Popping goes on as long as there are values, and then raises. -/
theorem popForever_run (sound : self.Sound) (inside : bucket < self.size) :
    ∃ after, (∀ fuel, (self.stored bucket).length < fuel →
        popForever bucket fuel self = some (.error .indexError, after)) ∧
      Holds self bucket [] after := by
  induction remaining : (self.stored bucket).length generalizing self with
  | zero =>
      have empty := List.length_eq_zero_iff.mp remaining
      have none : PythonLists.pop (self.stored bucket) (-1) = .error .indexError := by
        rw [empty]
        rfl
      obtain ⟨after, run, -, same⟩ := pop_error sound inside none
      obtain rfl := same _ rfl
      refine ⟨after, fun fuel enough => ?_, empty ▸ .refl sound⟩
      obtain ⟨fuel, rfl⟩ := Nat.exists_eq_add_of_le' enough
      exact bind_raised run
  | succ length ih =>
      obtain ⟨rest, value, full⟩ := (List.eq_nil_or_concat (self.stored bucket)).resolve_left
        (List.ne_nil_of_length_eq_add_one remaining)
      rw [List.concat_eq_append] at full
      have last : PythonLists.pop (self.stored bucket) (-1) = .ok (value, rest) := by
        rw [full]
        exact pop_last rest value
      obtain ⟨between, run, held, -⟩ := pop_ok sound inside last
      have shorter : (between.stored bucket).length = length := by
        rw [held.here]
        simpa [full] using remaining
      obtain ⟨after, more, emptied⟩ := ih held.sound (held.size ▸ inside) shorter
      refine ⟨after, fun fuel enough => ?_, held.trans emptied⟩
      obtain ⟨fuel, rfl⟩ := Nat.exists_eq_add_of_le' (Nat.one_le_of_lt enough)
      exact (bind_ok run).trans (more fuel (by omega))

theorem clear_settles (sound : self.Sound) (inside : bucket < self.size) :
    Settles (clear bucket) self bucket (.ok (), []) := by
  obtain ⟨after, run, held⟩ := popForever_run sound inside
  refine ⟨(self.stored bucket).length + 1, after, fun fuel enough => ?_, held, nofun⟩
  simp only [clear, tryCatch, tryCatchThe, MonadExceptOf.tryCatch, ExceptT.tryCatch, ExceptT.mk,
    StateT.bind, bind, run fuel enough]
  rfl

theorem extendValues_changes (sound : self.Sound) (inside : bucket < self.size) (values : List α) :
    Changes (extendValues bucket values) self bucket (.ok (), self.stored bucket ++ values) := by
  induction values generalizing self with
  | nil =>
      rw [List.append_nil]
      exact .reads sound rfl
  | cons value rest ih =>
      obtain ⟨between, run, held, -⟩ := append_changes sound inside value
      obtain ⟨after, more, extended, -⟩ := ih held.sound (held.size ▸ inside)
      rw [held.here, List.append_assoc] at extended
      exact ⟨after, (bind_ok run).trans more, held.trans extended, nofun⟩

/-- From another bucket, values are appended up to its end. -/
theorem extendLive_run {source position : Nat} (sound : self.Sound) (inside : bucket < self.size)
    (apart : source ≠ bucket) (within : position ≤ (self.stored source).length) :
    ∃ after, (∀ fuel, (self.stored source).length < fuel + position →
        extendLive bucket source fuel position self = some (.ok (), after)) ∧
      Holds self bucket (self.stored bucket ++ (self.stored source).drop position) after := by
  induction remaining : (self.stored source).length - position generalizing self position with
  | zero =>
      have read : (self.stored source)[position]? = none := List.getElem?_eq_none (by omega)
      refine ⟨self, fun fuel enough => ?_, ?_⟩
      · obtain ⟨fuel, rfl⟩ := Nat.exists_eq_add_of_le' (show 1 ≤ fuel by omega)
        rw [extendLive, get_bind, read]
        rfl
      · rw [List.drop_eq_nil_of_le (by omega), List.append_nil]
        exact .refl sound
  | succ length ih =>
      have reached : position < (self.stored source).length := by omega
      have read := List.getElem?_eq_getElem reached
      obtain ⟨between, run, held, -⟩ :=
        append_changes sound inside ((self.stored source).get ⟨position, reached⟩)
      have unmoved := held.others source apart
      have rest : ∃ after, (∀ fuel, _ → extendLive bucket source fuel (position + 1) between = _) ∧ _ :=
        ih held.sound (held.size ▸ inside) (by rw [unmoved]; omega) (by rw [unmoved]; omega)
      obtain ⟨after, more, extended⟩ := rest
      rw [held.here, unmoved, List.append_assoc, List.singleton_append, List.get_eq_getElem,
        List.getElem_cons_drop] at extended
      refine ⟨after, fun fuel enough => ?_, held.trans extended⟩
      obtain ⟨fuel, rfl⟩ := Nat.exists_eq_add_of_le' (show 1 ≤ fuel by omega)
      rw [extendLive, get_bind, read]
      exact (bind_ok run).trans (more fuel (by rw [unmoved]; omega))

/-- A bucket appended to from itself grows with every value that is read. -/
theorem extendLive_diverges {fuel position : Nat} (sound : self.Sound) (inside : bucket < self.size)
    (reached : position < (self.stored bucket).length) :
    extendLive bucket bucket fuel position self = none := by
  induction fuel generalizing self position with
  | zero => rfl
  | succ fuel ih =>
      obtain ⟨after, run, held, -⟩ :=
        append_changes sound inside ((self.stored bucket).get ⟨position, reached⟩)
      have longer : position + 1 < (after.stored bucket).length := by
        rw [held.here, List.length_append, List.length_singleton]
        omega
      rw [extendLive, get_bind, List.getElem?_eq_getElem reached]
      exact (bind_ok run).trans (ih held.sound (held.size ▸ inside) longer)

theorem setItem_changes (sound : self.Sound) (inside : bucket < self.size) {k : Nat}
    (present : k < (self.stored bucket).length) (value : α) :
    Changes (setItem bucket k value) self bucket (.ok (), (self.stored bucket).set k value) :=
  replaceBy_ok sound inside (fun values => PythonLists.setItem values k value)
    (setItem_of_lt present value)

theorem getItem_ok (inside : bucket < self.size) {k : Nat} {value : α}
    (found : (self.stored bucket)[k]? = some value) :
    getItem bucket k self = some (.ok value, self) := by
  obtain ⟨present, rfl⟩ := List.getElem?_eq_some_iff.mp found
  rw [getItem_run inside, getItem_of_lt present]
  rfl

theorem swap_changes (sound : self.Sound) (inside : bucket < self.size) {i : Nat}
    (half : i < (self.stored bucket).length / 2) :
    Changes (swap bucket (self.stored bucket).length i) self bucket
      (.ok (), swapEnds (self.stored bucket) i) := by
  obtain ⟨first, last, firstAt, lastAt, swapped⟩ := swapEnds_of_lt _ half
  have mirrored : (((self.stored bucket).length : Int) - i - 1) =
      (((self.stored bucket).length - i - 1 : Nat) : Int) := by omega
  obtain ⟨between, run, held, -⟩ := setItem_changes sound inside (k := i) (by omega) last
  have length : (between.stored bucket).length = (self.stored bucket).length := by
    rw [held.here, List.length_set]
  have second : Changes (setItem bucket ((self.stored bucket).length - i - 1 : Nat) first) between bucket _ :=
    setItem_changes held.sound (held.size ▸ inside) (by omega) first
  obtain ⟨after, more, written, -⟩ := second
  rw [held.here] at written
  refine ⟨after, ?_, swapped ▸ held.trans written, nofun⟩
  rw [swap, mirrored, bind_ok (getItem_ok inside lastAt), bind_ok (getItem_ok inside firstAt), bind_ok run]
  exact more

theorem swaps_changes {indices : List Nat} {length : Nat} (sound : self.Sound)
    (inside : bucket < self.size) (sameLength : (self.stored bucket).length = length)
    (half : ∀ i ∈ indices, i < length / 2) :
    Changes (indices.forM (swap bucket length)) self bucket
      (.ok (), indices.foldl swapEnds (self.stored bucket)) := by
  induction indices generalizing self with
  | nil => exact .reads sound rfl
  | cons i rest ih =>
      subst sameLength
      obtain ⟨between, run, held, -⟩ := swap_changes sound inside (half i List.mem_cons_self)
      have kept : (between.stored bucket).length = (self.stored bucket).length := by
        rw [held.here, length_swapEnds]
      obtain ⟨after, more, swapped, -⟩ := ih held.sound (held.size ▸ inside) kept
        fun j member => half j (List.mem_cons_of_mem _ member)
      rw [held.here] at swapped
      exact ⟨after, (bind_ok run).trans more, held.trans swapped, nofun⟩

theorem reverse_changes (sound : self.Sound) (inside : bucket < self.size) :
    Changes (reverse bucket) self bucket (.ok (), (self.stored bucket).reverse) := by
  have counted : len bucket self = some (.ok (self.stored bucket).length, self) :=
    bind_ok (values_run inside)
  obtain ⟨after, run, held, same⟩ := swaps_changes sound inside rfl fun i member =>
    List.mem_range.mp member
  rw [foldl_swapEnds_eq_reverse] at held
  exact ⟨after, (bind_ok counted).trans run, held, nofun⟩

end Methods

end Bucket

end Gambit.Iterations
