import Gambit.Hdf5.Replacement
import Gambit.Hdf5.Undisturbed

/-!
# Writing one key beside others

Writes to many keys of a file, each run to its end.  The groups of nested keys
lie in one another, so a write may take another key's arrays with it; the writes
that spare the keys written before are those described here.
-/

set_option autoImplicit false

namespace Gambit.Hdf5

open PathTrees Interruptions Raising

variable {α : Type} {np : NumPy α} {request : Request α} {key other : Key} {rowCount : Nat}
  {start file before after : H5File α} {set : ArraySet α} {limits : Limits}

/-! ## What a written set lists -/

theorem validateColumn_ok {counted next : Option Nat × Nat} {item : String × α}
    (run : validateColumn np counted item = .ok next) : validColumnName item.1 = true := by
  unfold validateColumn at run
  obtain ⟨named, _⟩ := refuse_ok.mp run
  simpa using named

theorem validate_names {data : OrderedDict String α}
    (run : validateHdf5Arrays np data limits = .ok rowCount) :
    ∀ col ∈ data.keys, validColumnName col = true := by
  unfold validateHdf5Arrays at run
  obtain ⟨_, run⟩ := refuse_ok.mp run
  obtain ⟨counted, rounds, _⟩ := bind_ok.mp run
  have each := foldlM_ok
    (P := fun done _ => ∀ item ∈ done, validColumnName item.1 = true)
    (fun done item now next _ held step other member => by
      rcases List.mem_append.mp member with earlier | last
      · exact held other earlier
      · rw [List.mem_singleton.mp last]
        exact validateColumn_ok step)
    (fun _ member => absurd member List.not_mem_nil) rounds
  intro col member
  obtain ⟨item, inside, rfl⟩ := List.mem_map.mp member
  exact each item inside

theorem encodeColumn_utf8 {dtypes : Option (OrderedDict String String)} {utf8Columns : List String}
    {colname : String} {array : α} {encoded : α × List String}
    (run : encodeColumn np dtypes utf8Columns colname array = .ok encoded) :
    ∀ col ∈ encoded.2, col ∈ utf8Columns ∨ col = colname := by
  unfold encodeColumn at run
  intro col member
  split at run
  · obtain ⟨_, _, run⟩ := bind_ok.mp run
    cases run
    exact .inl member
  · split at run
    · obtain ⟨_, _, run⟩ := bind_ok.mp run
      cases run
      simp only at member
      split at member
      · exact .inl member
      · exact (List.mem_append.mp member).imp_right List.mem_singleton.mp
    · split at run
      · obtain ⟨_, _, run⟩ := bind_ok.mp run
        cases run
        exact .inl member
      · obtain ⟨_, _, run⟩ := bind_ok.mp run
        cases run
        exact .inl member
      · cases run
        exact .inl member

theorem written_listed (admitted : request.admission np = .ok (some (key, rowCount)))
    (arrays : request.arrays np rowCount = .ok set) : set.Listed := by
  obtain ⟨_, _, admitted⟩ := bind_ok.mp admitted
  obtain ⟨_, _, admitted⟩ := bind_ok.mp admitted
  obtain ⟨rows, validated, admitted⟩ := bind_ok.mp admitted
  split at admitted
  · cases admitted
  obtain ⟨_, checked, _⟩ := bind_ok.mp admitted
  obtain ⟨stored, rounds, arrays⟩ := bind_ok.mp arrays
  cases arrays
  have names : stored.1.keys = request.data.keys :=
    keys_storeColumns request.data.distinct rounds
  have asUtf8 : ∀ col ∈ request.utf8Columns, col ∈ request.data.keys := by
    obtain ⟨known, _⟩ := refuse_ok.mp checked
    intro col member
    exact not_not.mp known col (List.mem_eraseDups.mp member)
  have utf8 : ∀ col ∈ stored.2, col ∈ request.data.keys := by
    refine foldlM_ok (P := fun _ (stored : OrderedDict String α × List String) =>
      ∀ col ∈ stored.2, col ∈ request.data.keys) ?_ asUtf8 rounds
    intro done item now next front held step col member
    obtain ⟨array, _, encoded, _, _⟩ := storeColumn_ok step
    rcases encodeColumn_utf8 encoded col member with earlier | own
    · exact held col earlier
    · have inside : item ∈ request.data.items := front.subset (by simp)
      rw [own]
      exact List.mem_map_of_mem inside
  exact {
    named := by
      intro col member
      rw [names] at member
      exact validate_names validated col member
    encoded := by
      intro col member
      rw [names]
      exact utf8 col member }

/-! ## Writes in sequence -/

/-- The file, and the last set written to each key. -/
structure Archive (α : Type) where
  file : H5File α
  written : List (Key × ArraySet α)

def emptyArchive : Archive α := ⟨emptyFile, []⟩

/-- A call of `np_arrays_to_hdf5` that runs to its end. -/
def Request.alone (request : Request α) : Attempt α := ⟨request, undisturbed⟩

def Archive.write (np : NumPy α) (archive : Archive α) (request : Request α) : Archive α where
  file := request.alone.leaves np archive.file
  written :=
    match request.alone.returns np archive.file, request.written np with
    | true, some (key, set) => (key, set) :: archive.written.filter fun entry => entry.1 ≠ key
    | _, _ => archive.written

/-- The write does not reach what was written to another key.  Its group does not hold
that key's, and none of its three groups is a column of that key's set. -/
structure Spares (np : NumPy α) (request : Request α) (entry : Key × ArraySet α) : Prop where
  staging : ∀ key rowCount, request.admission np = .ok (some (key, rowCount)) → entry.1 ≠ key →
    ∀ col ∈ entry.2.columns.keys, entry.1.path ++ [col] ≠ key.pending ∧
      entry.1.path ++ [col] ≠ key.backup
  apart : ∀ key set, request.written np = some (key, set) → entry.1 ≠ key →
    ¬ key.path <+: entry.1.path ∧ ∀ col ∈ entry.2.columns.keys, entry.1.path ++ [col] ≠ key.path

/-- Every write of a sequence spares what was written before it. -/
def AllSpare (np : NumPy α) : Archive α → List (Request α) → Prop
  | _, [] => True
  | archive, request :: rest =>
      (∀ entry ∈ archive.written, Spares np request entry) ∧
        AllSpare np (archive.write np request) rest

/-- What was written to a key stands there. -/
def Kept (archive : Archive α) : Prop :=
  ∀ entry ∈ archive.written, entry.2.Listed ∧ entry.2.StandsAt archive.file entry.1.path

theorem column_of_stored {col : String} {array : α} (stored : set.columns.get? col = some array) :
    col ∈ set.columns.keys := OrderedDict.mem_keys_of_get? stored

/-- A write that raises spares the sets with no column in its staging groups. -/
theorem stands_of_unstaged (unstaged : Unstaged other before after)
    (apart : ∀ col ∈ set.columns.keys, key.path ++ [col] ≠ other.pending ∧
      key.path ++ [col] ≠ other.backup)
    (stands : set.StandsAt before key.path) : set.StandsAt after key.path := by
  have notStaging : ¬ other.pending <+: key.path :=
    not_under_invalid (not_valid_staging other) key.valid
  have notBackup : ¬ other.backup <+: key.path :=
    not_under_invalid (not_valid_backup other) key.valid
  refine ⟨unstaged _ _ notStaging notBackup stands.group, ?_⟩
  intro col array stored
  obtain ⟨notPending, notAside⟩ := apart col (column_of_stored stored)
  refine unstaged _ _ ?_ ?_ (stands.datasets col array stored)
  · intro under
    rcases List.prefix_concat_iff.mp under with whole | inside
    · exact notPending whole.symm
    · exact notStaging inside
  · intro under
    rcases List.prefix_concat_iff.mp under with whole | inside
    · exact notAside whole.symm
    · exact notBackup inside

/-- A write spares the sets outside of its groups. -/
theorem stands_of_touches (touches : Touches other before after)
    (notAbove : ¬ other.path <+: key.path)
    (apart : ∀ col ∈ set.columns.keys, key.path ++ [col] ≠ other.path ∧
      key.path ++ [col] ≠ other.pending ∧ key.path ++ [col] ≠ other.backup)
    (stands : set.StandsAt before key.path) : set.StandsAt after key.path := by
  have here : ¬ other.Covers key.path := fun covers => notAbove (under_of_covers covers key.valid)
  refine ⟨touches.kept here stands.group, ?_⟩
  intro col array stored
  obtain ⟨notPath, notPending, notAside⟩ := apart col (column_of_stored stored)
  refine touches.kept ?_ (stands.datasets col array stored)
  intro covers
  rcases column_covers covers with above | path | pending | aside
  · exact notAbove above
  · exact notPath path
  · exact notPending pending
  · exact notAside aside

/-- What a write that runs to its end does to the file. -/
theorem alone_outcome (np : NumPy α) (request : Request α) (file : H5File α) :
    (request.alone.leaves np file = file ∧ request.written np = none) ∨
    ∃ key rowCount, request.admission np = .ok (some (key, rowCount)) ∧
      Touches key file (request.alone.leaves np file) ∧
      ((request.alone.returns np file = true ∧ ∃ set, request.arrays np rowCount = .ok set ∧
          request.written np = some (key, set) ∧
          set.StandsAt (request.alone.leaves np file) key.path) ∨
        (request.alone.returns np file = false ∧
          Unstaged key file (request.alone.leaves np file))) := by
  cases admitted : request.admission np with
  | error error =>
      left
      simp [Attempt.leaves, Attempt.run, Request.alone, npArraysToHdf5, compute, raiseIn,
        Except.mapError, admitted, bind, Except.bind, Request.written]
  | ok plan =>
      cases plan with
      | none =>
          left
          simp [Attempt.leaves, Attempt.run, Request.alone, npArraysToHdf5, compute, raiseIn,
            Except.mapError, admitted, bind, Except.bind, Request.written]
      | some plan =>
          obtain ⟨key, rowCount⟩ := plan
          refine .inr ⟨key, rowCount, rfl, ?_⟩
          have same : request.alone.run np file =
              replaceGroup np undisturbed request key rowCount ⟨file, 0⟩ := by
            simp [Attempt.run, Request.alone, npArraysToHdf5, compute, raiseIn, Except.mapError,
              admitted, bind, Except.bind]
          have touched := replaceGroup_touches np undisturbed request key rowCount
            ⟨file, 0⟩ (Touches.refl file)
          have outcome := replaceGroup_undisturbed np request key rowCount ⟨file, 0⟩
            (Unstaged.refl key file)
          rw [← same] at touched outcome
          unfold Attempt.leaves Attempt.returns
          cases done : request.alone.run np file with
          | ok run =>
              rw [done] at touched outcome
              obtain ⟨set, arrays, here⟩ := outcome
              refine ⟨touched, .inl ⟨rfl, set, arrays, ?_, here⟩⟩
              simp [Request.written, admitted, arrays, Except.toOption]
          | error stop =>
              rw [done] at touched outcome
              exact ⟨touched, .inr ⟨rfl, outcome⟩⟩

/-- An entry of another key stands through a write that spares it. -/
theorem entry_stands {entry : Key × ArraySet α} (spares : Spares np request entry)
    (stands : entry.2.StandsAt file entry.1.path)
    (foreign : request.alone.returns np file = true →
      ∀ set, request.written np ≠ some (entry.1, set)) :
    entry.2.StandsAt (request.alone.leaves np file) entry.1.path := by
  rcases alone_outcome np request file with ⟨same, _⟩ |
    ⟨key, rowCount, admitted, touches, ⟨returned, set, _, written, _⟩ | ⟨_, unstaged⟩⟩
  · rw [same]
    exact stands
  · have distinct : entry.1 ≠ key := by
      intro same
      exact foreign returned set (by rw [same]; exact written)
    obtain ⟨notAbove, notPath⟩ := spares.apart key set written distinct
    refine stands_of_touches touches notAbove (fun col member => ⟨notPath col member, ?_⟩) stands
    exact spares.staging key rowCount admitted distinct col member
  · by_cases own : entry.1 = key
    · rw [own] at stands ⊢
      exact stands_of_unstaged unstaged (fun col _ => ⟨fun same => by
        have ends := (List.append_inj' same rfl).1
        have longer := congrArg List.length ends
        simp [Key.path] at longer, fun same => by
        have ends := (List.append_inj' same rfl).1
        have longer := congrArg List.length ends
        simp [Key.path] at longer⟩) stands
    · exact stands_of_unstaged unstaged (spares.staging key rowCount admitted own) stands

theorem write_kept {archive : Archive α} (kept : Kept archive)
    (spares : ∀ entry ∈ archive.written, Spares np request entry) :
    Kept (archive.write np request) := by
  have others : ∀ entry ∈ archive.written,
      (request.alone.returns np archive.file = true →
        ∀ set, request.written np ≠ some (entry.1, set)) →
      entry.2.Listed ∧ entry.2.StandsAt (archive.write np request).file entry.1.path :=
    fun entry member foreign => ⟨(kept entry member).1,
      entry_stands (spares entry member) (kept entry member).2 foreign⟩
  intro entry member
  unfold Archive.write at member
  cases returned : request.alone.returns np archive.file with
  | false =>
      simp only [returned] at member
      exact others entry member fun returns => by rw [returned] at returns; cases returns
  | true =>
      cases written : request.written np with
      | none =>
          simp only [returned, written] at member
          exact others entry member fun _ set now => by rw [written] at now; cases now
      | some pair =>
          obtain ⟨key, set⟩ := pair
          simp only [returned, written] at member
          rcases List.mem_cons.mp member with rfl | earlier
          · rcases alone_outcome np request archive.file with ⟨_, nothing⟩ |
              ⟨key', rowCount, admitted, _, ⟨_, set', arrays, writes, here⟩ | ⟨failed, _⟩⟩
            · rw [written] at nothing
              cases nothing
            · rw [written] at writes
              cases writes
              exact ⟨written_listed admitted arrays, here⟩
            · rw [returned] at failed
              cases failed
          · obtain ⟨member, distinct⟩ := List.mem_filter.mp earlier
            refine others entry member fun _ set now => ?_
            rw [written] at now
            cases now
            simp at distinct

def archiveAfter (np : NumPy α) (requests : List (Request α)) : Archive α :=
  requests.foldl (fun archive request => archive.write np request) emptyArchive

theorem allSpare_append {archive : Archive α} {requests : List (Request α)} :
    AllSpare np archive (requests ++ [request]) ↔
      AllSpare np archive requests ∧
        ∀ entry ∈ (requests.foldl (fun archive request => archive.write np request)
          archive).written, Spares np request entry := by
  induction requests generalizing archive with
  | nil => simp [AllSpare]
  | cons first rest ih =>
      simp only [List.cons_append, AllSpare, List.foldl_cons, ih, and_assoc]

theorem archive_kept (requests : List (Request α)) (spare : AllSpare np emptyArchive requests) :
    Kept (archiveAfter np requests) := by
  induction requests using List.reverseRecOn with
  | nil => exact fun _ member => absurd member List.not_mem_nil
  | append_singleton requests request ih =>
      obtain ⟨earlier, last⟩ := allSpare_append.mp spare
      unfold archiveAfter
      rw [List.foldl_append]
      exact write_kept (ih earlier) last

theorem openAbove_of_stands (stands : set.StandsAt file key.path) : OpenAbove key file := by
  intro path above content leaf
  obtain ⟨rest, whole⟩ := above
  have present : file.node (path ++ (rest ++ [key.name])) ≠ none := by
    rw [← List.append_assoc, whole, ← path_eq, stands.group]
    exact Option.some_ne_none _
  obtain ⟨label, branch⟩ := file.branch_of_below (by simp) present
  rw [leaf] at branch
  cases branch

theorem reads_stands {name : String} (stands : set.StandsAt file key.path)
    (normal : normalizeHdf5Key name = .ok key) :
    hdf5ToNpArrays np file name limits = obtained np limits (some set) := by
  have standing : Standing key (some set) file := ⟨openAbove_of_stands stands, Or.inl stands⟩
  exact reads_standing standing normal

end Gambit.Hdf5
