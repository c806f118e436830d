import Gambit.Hdf5.WriterSteps
import Gambit.Hdf5.Reading

/-!
# One attempt to write

From whatever stands for the key an attempt returns with its own set installed,
or stops where the old set or its own stands.  The rest of the file is out of
its reach.
-/

set_option autoImplicit false

namespace Gambit.Hdf5

open PathTrees Interruptions Raising

variable {α : Type} {np : NumPy α} {fate : Fate Exn} {request : Request α} {key other : Key}
  {rowCount : Nat} {file before after : H5File α} {set : ArraySet α}
  {standing : Option (ArraySet α)} {attrs : Attrs} {columns : OrderedDict String α}
  {name : String} {P E : H5File α → Prop}

/-! ## The set a request stores -/

theorem storeColumn_ok {dtypes : Option (OrderedDict String String)}
    {done next : OrderedDict String α × List String} {item : String × α}
    (run : storeColumn np dtypes done item = .ok next) :
    ∃ array stored, encodeColumn np dtypes done.2 item.1 item.2 = .ok (array, next.2) ∧
      np.stored array = .ok stored ∧ next.1 = done.1.set item.1 stored := by
  obtain ⟨encoded, converted, run⟩ := bind_ok.mp run
  obtain ⟨stored, placed, run⟩ := bind_ok.mp run
  cases run
  exact ⟨encoded.1, stored, converted, placed, rfl⟩

theorem keys_storeColumns {dtypes : Option (OrderedDict String String)} {utf8 : List String}
    {items : List (String × α)} (distinct : (items.map Prod.fst).Nodup)
    {stored : OrderedDict String α × List String}
    (run : items.foldlM (storeColumn np dtypes) (OrderedDict.empty, utf8) = .ok stored) :
    stored.1.keys = items.map Prod.fst := by
  refine foldlM_ok (P := fun done stored => stored.1.keys = done.map Prod.fst) ?_ rfl run
  intro done item now next front held step
  obtain ⟨_, array, _, _, placed⟩ := storeColumn_ok step
  have new : item.1 ∉ now.1.keys := by
    rw [held]
    have part := distinct.sublist (front.sublist.map Prod.fst)
    rw [List.map_append, List.nodup_append] at part
    intro inside
    exact part.2.2 _ inside _ (by simp) rfl
  rw [placed, OrderedDict.keys_set, if_neg new, held]
  simp

/-! ## The phases in order -/

/-- Something complete stands for the key: what stood before, or the set of the request. -/
def Safe (np : NumPy α) (request : Request α) (key : Key) (rowCount : Nat)
    (standing : Option (ArraySet α)) (file : H5File α) : Prop :=
  Standing key standing file ∨
    ∃ set, request.arrays np rowCount = .ok set ∧ Standing key (some set) file

theorem flush_ensures (safe : ∀ file : H5File α, P file → E file) :
    Ensures P P E (perform fate flush) :=
  perform_ensures safe fun _ _ held run => flush_ok run ▸ held

theorem recover_ensures (safe : ∀ file : H5File α, Standing key standing file → E file) :
    Ensures (Standing key standing) (Recovered key standing) E
      (inOrder fate (recoverHdf5Group key)) := by
  have restored : ∀ file : H5File α, Restored key standing file → E file :=
    fun file restored => safe file restored.stands
  have recovered : ∀ file : H5File α, Recovered key standing file → E file :=
    fun file recovered => safe file recovered.stands
  have restore : Ensures (Standing key standing) (Restored key standing) E
      (perform fate (restoreBackup key)) :=
    perform_ensures safe fun _ _ => restoreBackup_restores
  have pending : Ensures (Restored key standing) (Restored key standing) E
      (perform fate (discardPending key)) :=
    perform_ensures restored fun _ _ held run => held.beside (discardPending_beside run)
  have stale : Ensures (Restored key standing) (Recovered key standing) E
      (perform fate (discardStaleBackup key)) :=
    perform_ensures restored fun _ _ => discardStaleBackup_recovers
  exact restore.cons <| (flush_ensures restored).cons <| pending.cons <| stale.cons <|
    (flush_ensures recovered).cons <| .nil fun _ held => held

theorem setAttrs_ensures (steady : Steady key P) (safe : ∀ file : H5File α, P file → E file)
    (pairs : List (String × Attr)) :
    Ensures (Staging key P attrs columns)
      (Staging key P (pairs.foldl (fun attrs attr => attrs.set attr.1 attr.2) attrs) columns)
      E (inOrder fate (setAttrs key.pending pairs)) := by
  induction pairs generalizing attrs with
  | nil => exact .nil fun _ held => held
  | cons pair rest ih =>
      have first : Ensures (Staging key P attrs columns)
          (Staging key P (attrs.set pair.1 pair.2) columns) E
          (perform fate (setAttr key.pending pair.1 pair.2)) :=
        perform_ensures (fun file held => safe file held.base) fun _ _ => setAttr_stages steady
      exact first.cons ih

theorem compute_yields {β : Type} {value : Except Exn β} {run : Run (H5File α)}
    (held : E run.state) :
    Yields (fun b => value = .ok b) (fun stop => E stop.state.state)
      ((compute value : Program Exn (H5File α) β) run) := by
  cases value with
  | ok b => exact rfl
  | error error => exact held

theorem writeColumns_yields (steady : Steady key P) (safe : ∀ file : H5File α, P file → E file)
    (request : Request α) {run : Run (H5File α)}
    (staging : Staging key P attrs OrderedDict.empty run.state) :
    Yields (fun done : Run (H5File α) × List String => ∃ columns,
        request.data.items.foldlM (storeColumn np request.dtypes)
          (OrderedDict.empty, request.utf8Columns) = .ok (columns, done.2) ∧
        Staging key P attrs columns done.1.state)
      (fun stop => E stop.state.state)
      (request.data.items.foldlM (writeColumn np fate request.dtypes key)
        (run, request.utf8Columns)) := by
  refine Yields.foldlM_done
    (P := fun written (done : Run (H5File α) × List String) => ∃ columns,
      written.foldlM (storeColumn np request.dtypes) (OrderedDict.empty, request.utf8Columns) =
          .ok (columns, done.2) ∧
        Staging key P attrs columns done.1.state) ?_ ⟨_, rfl, staging⟩
  intro written item now _ held
  obtain ⟨columns, stored, staging⟩ := held
  have stopped := safe _ staging.base
  unfold writeColumn
  refine (compute_yields stopped).bind fun encoded converted => ?_
  have filled : Ensures (Staging key P attrs columns)
      (fun file => ∃ array, np.stored encoded.1 = .ok array ∧
        Staging key P attrs (columns.set item.1 array) file) E
      (perform fate (createDataset np key.pending item.1 encoded.1)) :=
    perform_ensures (fun file held => safe file held.base)
      fun _ _ => createDataset_stages steady
  refine (filled now.1 staging).bind fun after result => ?_
  obtain ⟨array, placed, staging⟩ := result
  refine ⟨columns.set item.1 array, ?_, staging⟩
  rw [List.foldlM_append, stored]
  simp only [bind, Except.bind, List.foldlM_cons, List.foldlM_nil, storeColumn, converted, placed]
  rfl

/-- The staging group ends up with the set of the request, where all conversions succeed. -/
theorem fillGroup_ensures (steady : Steady key P) (safe : ∀ file : H5File α, P file → E file)
    (request : Request α) (rowCount : Nat) :
    Ensures (Staging key P OrderedDict.empty OrderedDict.empty)
      (fun file => ∃ set, request.arrays np rowCount = .ok set ∧ P file ∧
        set.StandsAt file key.pending)
      E (fillGroup np fate request key rowCount) := by
  intro run staging
  unfold fillGroup
  refine (setAttrs_ensures steady safe openingAttrs run staging).bind fun opened staging => ?_
  refine (writeColumns_yields steady safe request staging).bind fun done filled => ?_
  obtain ⟨columns, stored, staging⟩ := filled
  refine (setAttrs_ensures steady safe _ done.1 staging).mono fun closed staging => ?_
  let set : ArraySet α := ⟨columns, done.2, rowCount, request.timestamp⟩
  have arrays : request.arrays np rowCount = .ok set := by
    unfold Request.arrays
    rw [stored]
    rfl
  have names : request.data.keys = set.columns.keys :=
    (keys_storeColumns request.data.distinct stored).symm
  rw [names, ← List.foldl_append] at staging
  have staged : set.StandsAt closed.state key.pending := Staging.staged staging
  exact ⟨set, arrays, staging.base, staged⟩

theorem exchange_ensures (old : ∀ file : H5File α, Standing key standing file → E file)
    (new : ∀ file : H5File α, Standing key (some set) file → E file) :
    Ensures (Ready key standing set) (Installed key set) E (inOrder fate (exchange key)) := by
  have ready : ∀ file : H5File α, Ready key standing set file → E file :=
    fun file ready => old file ready.recovered.stands
  have aside : ∀ file : H5File α, SetAside key standing set file → E file :=
    fun file aside => old file aside.stands
  have installed : ∀ file : H5File α, Installed key set file → E file :=
    fun file installed => new file installed.stands
  have clear : Ensures (Ready key standing set) (Ready key standing set) E
      (perform fate (discardBackup key)) := perform_ensures ready fun _ _ => discardBackup_ready
  have move : Ensures (Ready key standing set) (SetAside key standing set) E
      (perform fate (setAside key)) := perform_ensures ready fun _ _ => setAside_ok
  have place : Ensures (SetAside key standing set) (Installed key set) E
      (perform fate (install key)) := perform_ensures aside fun _ _ => install_ok
  have tidy : Ensures (Installed key set) (Installed key set) E
      (perform fate (discardBackup key)) :=
    perform_ensures installed fun _ _ => discardBackup_installed
  exact (flush_ensures ready).cons <| clear.cons <| move.cons <| (flush_ensures aside).cons <|
    place.cons <| (flush_ensures installed).cons <| tidy.cons <|
    (flush_ensures installed).cons <| .nil fun _ held => held

theorem writeGroup_ensures (request : Request α) (key : Key) (rowCount : Nat) :
    Ensures (Staging key (Recovered key standing) OrderedDict.empty OrderedDict.empty)
      (fun file => ∃ set, request.arrays np rowCount = .ok set ∧ Installed key set file)
      (Safe np request key rowCount standing) (writeGroup np fate request key rowCount) := by
  have safe : ∀ file, Standing key standing file → Safe np request key rowCount standing file :=
    fun file stands => .inl stands
  intro run staging
  refine (fillGroup_ensures (recovered_steady key standing)
    (fun file recovered => safe file recovered.stands) request rowCount run staging).bind
    fun filled result => ?_
  obtain ⟨set, arrays, recovered, staged⟩ := result
  have new : ∀ file, Standing key (some set) file → Safe np request key rowCount standing file :=
    fun file stands => .inr ⟨set, arrays, stands⟩
  exact (exchange_ensures safe new filled ⟨recovered, staged⟩).mono fun after installed =>
    ⟨set, arrays, installed⟩

theorem Safe.beside (beside : Beside key key.stagingName before after)
    (safe : Safe np request key rowCount standing before) :
    Safe np request key rowCount standing after := by
  rcases safe with old | ⟨set, arrays, new⟩
  · exact .inl (beside.keeps old)
  · exact .inr ⟨set, arrays, beside.keeps new⟩

theorem replaceGroup_ensures (np : NumPy α) (fate : Fate Exn) (request : Request α) (key : Key) (rowCount : Nat) :
    Ensures (Standing key standing)
      (fun file => ∃ set, request.arrays np rowCount = .ok set ∧ Installed key set file)
      (Safe np request key rowCount standing) (replaceGroup np fate request key rowCount) := by
  have safe : ∀ file, Standing key standing file → Safe np request key rowCount standing file :=
    fun file stands => .inl stands
  have create : Ensures (Recovered key standing)
      (Staging key (Recovered key standing) OrderedDict.empty OrderedDict.empty)
      (Safe np request key rowCount standing) (perform fate (createGroup key.pending)) :=
    perform_ensures (fun file held => safe file held.stands) fun _ _ =>
      createGroup_stages fun _ _ => createGroup_recovered
  have discard : Ensures (Safe np request key rowCount standing)
      (Safe np request key rowCount standing) (Safe np request key rowCount standing)
      (perform fate (discardPending key)) :=
    perform_ensures (fun _ held => held) fun _ _ held run => held.beside (discardPending_beside run)
  have cleanup : Ensures (Safe np request key rowCount standing)
      (Safe np request key rowCount standing) (Safe np request key rowCount standing)
      (inOrder fate [discardPending key, flush]) :=
    discard.cons <| (flush_ensures fun _ held => held).cons <| .nil fun _ held => held
  exact (recover_ensures safe).bind <| create.bind <|
    guarded_ensures (writeGroup_ensures request key rowCount) cleanup fun _ held => held

end Gambit.Hdf5
