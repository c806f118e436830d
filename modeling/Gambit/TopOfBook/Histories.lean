import Gambit.TopOfBook.Invariant

/-!
# Histories of calls

However the calls of a history cut the events into batches, and whichever of
them are turned away, a backtester that has not failed is where one pass over
the events fed to it leads.  No call of any history reaches undefined
behaviour.
-/

set_option autoImplicit false

namespace Gambit.TopOfBook

open FixedWidth Raising

/-- The events of an array that reach the loop. -/
def admitted {α : Type} (wrongMode : Bool) (read : α → Observation) (events : EventArray α)
    (locked : Bool) : List Observation :=
  if wrongMode = false ∧ events.ndim = 1 ∧ events.aligned = true ∧ locked = true then
    events.items.map read
  else []

/-- The events a call hands to the loop, when it comes that far. -/
def Attempt.fed (config : Config) (made : Attempt) : List Observation :=
  match made.call with
  | .processBatch events => admitted config.fifo .book events made.locked
  | .processQueueBatch events => admitted (!config.fifo) .queue events made.locked
  | .result => []

def fed (config : Config) (history : List Attempt) : List Observation :=
  history.flatMap (Attempt.fed config)

/-- The backtester as the constructor leaves it. -/
def fresh (config : Config) : Backtester := ⟨initialState config, false⟩

theorem construct_ok {arguments : Arguments} {config : Config} {self : Backtester}
    (built : construct arguments = .ok (config, self)) : self = fresh config := by
  unfold construct at built
  split at built
  · cases built
  · cases built
    rfl

/-- One pass over the events, in the mode they were meant for. -/
structure Replayed (config : Config) (done : List Observation) (now : State) : Prop where
  suited : ∀ seen ∈ done, seen.queueEvent.isSome = config.fifo
  run : done.foldlM (observe config) (initialState config) = .ok now

section Replay

variable {config : Config} {done later : List Observation} {seen : Observation}
  {now after : State}

theorem Replayed.start (config : Config) : Replayed config [] (initialState config) where
  suited := fun _ absent => absurd absent (List.not_mem_nil)
  run := rfl

theorem Replayed.onward (replayed : Replayed config done now)
    (suited : ∀ seen ∈ later, seen.queueEvent.isSome = config.fifo)
    (run : later.foldlM (observe config) now = .ok after) :
    Replayed config (done ++ later) after where
  suited := List.forall_mem_append.mpr ⟨replayed.suited, suited⟩
  run := by
    rw [List.foldlM_append, replayed.run]
    exact run

theorem observed_of_ok (idle : Idle config now) (suited : seen.queueEvent.isSome = config.fifo)
    (run : observe config now seen = .ok after) : Observed config seen now after :=
  (observe_yields idle fun queued => suited ▸ queued).of_ok run

/-- What the start has and every event preserves, every replay has. -/
theorem Replayed.induction {P : List Observation → State → Prop}
    (replayed : Replayed config done now) (start : P [] (initialState config))
    (each : ∀ done seen now after, Idle config now → P done now →
      seen.queueEvent.isSome = config.fifo → Observed config seen now after →
      P (done ++ [seen]) after) : P done now ∧ Idle config now := by
  have suited := replayed.suited
  refine foldlM_ok (P := fun done now => P done now ∧ Idle config now) ?_
    ⟨start, Idle.initial config⟩ replayed.run
  intro before seen now after onward holds step
  have fits := suited seen (onward.subset (by simp))
  have observed := observed_of_ok holds.2 fits step
  exact ⟨each before seen now after holds.2 holds.1 fits observed, holds.2.observed observed⟩

theorem Replayed.idle (replayed : Replayed config done now) : Idle config now :=
  (replayed.induction (P := fun _ _ => True) trivial fun _ _ _ _ _ _ _ _ => trivial).2

theorem Observed.sequence (observed : Observed config seen now after) :
    seen.event.sequence = now.processed ∧ after.processed = now.processed + 1 := by
  cases observed with
  | mk checked _ _ matching _ rebalancing =>
      have kept := rebalancing.processed.trans matching.processed
      exact ⟨checked.sequence, congrArg (· + 1) kept⟩

/-- Events are numbered as they come. -/
theorem Replayed.numbered (replayed : Replayed config done now) :
    now.processed = done.length ∧
      ∀ (k : Nat) (seen : Observation), done[k]? = some seen → seen.event.sequence = k := by
  refine (replayed.induction (P := fun done now => now.processed = done.length ∧
    ∀ (k : Nat) (seen : Observation), done[k]? = some seen → seen.event.sequence = k) ?_ ?_).1
  · exact ⟨rfl, fun k seen read => by cases read⟩
  · intro done seen now after _ holds _ observed
    obtain ⟨sequence, counted⟩ := observed.sequence
    refine ⟨?_, ?_⟩
    · rw [counted, holds.1, List.length_append, List.length_singleton]
    · intro k other read
      rcases Tables.append_some read with ⟨rfl, rfl⟩ | before
      · rw [sequence, holds.1]
      · exact holds.2 k other before

end Replay

/-! ## Calls -/

section Calls

variable {config : Config}

theorem equityOf_yields (now : State) (nonneg : 0 ≤ now.cash) (fits : Fits now.cash) :
    Yields
      (fun equity => equity =
          now.cash + (now.instruments.map fun state => state.position * state.bid).sum ∧
        0 ≤ equity ∧ Fits equity)
      Defined (equityOf now) := by
  unfold equityOf
  generalize now.instruments = rows
  generalize now.cash = cash at nonneg fits ⊢
  induction rows generalizing cash with
  | nil => exact ⟨by simp, nonneg, fits⟩
  | cons state rows ih =>
      rw [List.foldlM_cons]
      have valued : Yields (fun sum => sum = cash + state.position * state.bid ∧ 0 ≤ sum ∧ Fits sum)
          Defined (do
            let value ← checkedProduct state.position state.bid
            checkedAdd cash value) := by
        refine (checkedProduct_yields state.position state.bid).bind fun value multiplied => ?_
        obtain ⟨rfl, positionNonneg, bidNonneg, _⟩ := multiplied
        refine (checkedAdd_yields cash _).mono fun sum added => ?_
        obtain ⟨rfl, _, productNonneg, sumFits⟩ := added
        exact ⟨rfl, by omega, sumFits⟩
      refine valued.bind fun sum added => ?_
      obtain ⟨rfl, sumNonneg, sumFits⟩ := added
      refine (ih _ sumNonneg sumFits).mono fun equity totalled => ?_
      rw [List.map_cons, List.sum_cons, ← add_assoc]
      exact totalled

/-- A batch either moves the backtester along its events or fails it. -/
theorem runBatch_cases (batch : List Observation) (self : Backtester)
    (idle : Idle config self.state) (suited : ∀ seen ∈ batch, seen.queueEvent.isSome = config.fifo) :
    (∃ state, batch.foldlM (observe config) self.state = .ok state ∧
      runBatch config batch self = (.ok batch.length, { self with state })) ∨
    (∃ raised, batch.foldlM (observe config) self.state = .error raised ∧
      Defined raised.error ∧
      runBatch config batch self = (.error raised.error, ⟨raised.state, true⟩)) := by
  have defined : Yields (Idle config) (fun raised => Defined raised.error)
      (batch.foldlM (observe config) self.state) := by
    refine Yields.foldlM (fun seen member now idle => ?_) idle
    have fits := suited seen member
    exact (observe_yields idle fun queued => fits ▸ queued).mono fun after observed =>
      idle.observed observed
  unfold runBatch
  cases run : batch.foldlM (observe config) self.state with
  | ok state => exact Or.inl ⟨state, rfl, rfl⟩
  | error raised => exact Or.inr ⟨raised, rfl, defined.of_error run, rfl⟩

/-- What an attempt leaves: the backtester moved along the events fed to it, or
failed, or as it was. -/
structure Answered (config : Config) (before after : Backtester) (made : Attempt)
    (reply : Except Failure Reply) : Prop where
  defined : reply ≠ .error .undefinedBehaviour
  stuck : before.failed = true → after.failed = true ∧ ∃ error, reply = .error error
  moved : after.failed = false → before.failed = false ∧
    (made.fed config).foldlM (observe config) before.state = .ok after.state
  halted : before.failed = false → ∀ raised,
    (made.fed config).foldlM (observe config) before.state = .error raised →
      after.failed = true ∧ reply = .error raised.error

variable {self : Backtester} {made : Attempt}

theorem admitted_suited {α : Type} {wrongMode : Bool} {read : α → Observation}
    {events : EventArray α} {locked : Bool}
    (mode : ∀ event, wrongMode = false → (read event).queueEvent.isSome = config.fifo) :
    ∀ seen ∈ admitted wrongMode read events locked, seen.queueEvent.isSome = config.fifo := by
  intro seen member
  unfold admitted at member
  split at member
  · next accepted =>
      obtain ⟨event, _, rfl⟩ := List.mem_map.mp member
      exact mode event accepted.1
  · cases member

theorem Attempt.fed_suited (config : Config) (made : Attempt) :
    ∀ seen ∈ made.fed config, seen.queueEvent.isSome = config.fifo := by
  obtain ⟨call, locked⟩ := made
  cases call with
  | processBatch events => exact admitted_suited fun event quote => quote.symm
  | processQueueBatch events =>
      refine admitted_suited fun event trade => ?_
      rw [Bool.not_eq_false'] at trade
      exact trade.symm
  | result => exact fun seen absent => by cases absent

/-- A call turned away before the loop, and one made of a failed backtester. -/
theorem answered_turned_away {error : Failure} (defined : Defined error)
    (unread : made.fed config = [] ∨ self.failed = true) :
    Answered config self self made (.error error) where
  defined := fun same => defined (Except.error.inj same)
  stuck := fun failed => ⟨failed, error, rfl⟩
  moved := by
    intro running
    rcases unread with none | failed
    · refine ⟨running, ?_⟩
      rw [none]
      rfl
    · rw [failed] at running
      cases running
  halted := by
    intro running raised run
    rcases unread with none | failed
    · rw [none] at run
      cases run
    · rw [failed] at running
      cases running

theorem answered_batch (running : self.failed = false) (idle : Idle config self.state) :
    Answered config self (runBatch config (made.fed config) self).2 made
      ((runBatch config (made.fed config) self).1.map .processed) := by
  rcases runBatch_cases (made.fed config) self idle (made.fed_suited config) with
    ⟨state, run, outcome⟩ | ⟨raised, run, defined, outcome⟩
  · rw [outcome]
    exact
      { defined := fun same => by cases same
        stuck := fun failed => by rw [running] at failed; cases failed
        moved := fun _ => ⟨running, run⟩
        halted := fun _ raised raisedRun => by rw [run] at raisedRun; cases raisedRun }
  · rw [outcome]
    refine
      { defined := fun same => defined (Except.error.inj same)
        stuck := fun failed => by rw [running] at failed; cases failed
        moved := fun absent => by cases absent
        halted := fun _ other otherRun => ?_ }
    rw [run] at otherRun
    cases otherRun
    exact ⟨rfl, rfl⟩

theorem answered_result (locked : Bool) (idle : self.failed = false → Idle config self.state)
    (unread : made.fed config = []) :
    Answered config self (result config locked self).2 made
      ((result config locked self).1.map .report) := by
  unfold result
  by_cases free : locked = false
  · rw [if_pos free]
    exact answered_turned_away Failure.noConfusion (Or.inl unread)
  rw [if_neg free]
  by_cases failed : self.failed = true
  · rw [if_pos failed]
    exact answered_turned_away Failure.noConfusion (Or.inl unread)
  rw [if_neg failed]
  have running : self.failed = false := Bool.eq_false_iff.mpr failed
  have sound := (idle running).sound
  have valued := equityOf_yields self.state sound.cash.1 sound.cash.2
  cases run : equityOf self.state with
  | error error =>
      refine
        { defined := fun same => valued.of_error run (Except.error.inj same)
          stuck := fun halted => absurd halted failed
          moved := fun absent => by cases absent
          halted := fun _ raised raisedRun => ?_ }
      rw [unread] at raisedRun
      cases raisedRun
  | ok equity =>
      obtain ⟨_, nonneg, fits⟩ := valued.of_ok run
      have initialNonneg := config.cash_nonneg
      have pnlFits : Fits (equity - config.cash) := by
        have lower := config.cash_fits.neg initialNonneg
        exact lower.between fits (by omega) (by omega)
      simp only [int64_of_fits pnlFits, bind, Except.bind, pure, Except.pure]
      refine
        { defined := fun same => by cases same
          stuck := fun halted => absurd halted failed
          moved := fun _ => ⟨running, by rw [unread]; rfl⟩
          halted := fun _ raised raisedRun => ?_ }
      rw [unread] at raisedRun
      cases raisedRun

theorem answered_admitBatch {α : Type} {wrongMode : Bool} {modeText shapeText : String}
    {read : α → Observation} {events : EventArray α} {locked : Bool}
    (idle : self.failed = false → Idle config self.state)
    (isFed : made.fed config = admitted wrongMode read events locked) :
    Answered config self
      (admitBatch config wrongMode modeText shapeText read events locked self).2 made
      ((admitBatch config wrongMode modeText shapeText read events locked self).1.map
        .processed) := by
  have unread (refused : ¬ (wrongMode = false ∧ events.ndim = 1 ∧ events.aligned = true ∧
      locked = true)) : made.fed config = [] := isFed.trans (if_neg refused)
  unfold admitBatch
  by_cases mode : wrongMode = true
  · rw [if_pos mode]
    refine answered_turned_away Failure.noConfusion (Or.inl (unread fun accepted => ?_))
    rw [mode] at accepted
    cases accepted.1
  rw [if_neg mode]
  by_cases shape : events.ndim ≠ 1 ∨ events.aligned = false
  · rw [if_pos shape]
    refine answered_turned_away Failure.noConfusion (Or.inl (unread fun accepted => ?_))
    rcases shape with dimensions | misaligned
    · exact dimensions accepted.2.1
    · rw [misaligned] at accepted
      cases accepted.2.2.1
  rw [if_neg shape]
  by_cases busy : locked = false
  · rw [if_pos busy]
    refine answered_turned_away Failure.noConfusion (Or.inl (unread fun accepted => ?_))
    rw [busy] at accepted
    cases accepted.2.2.2
  rw [if_neg busy]
  by_cases failed : self.failed = true
  · rw [if_pos failed]
    exact answered_turned_away Failure.noConfusion (Or.inr failed)
  rw [if_neg failed]
  have running := Bool.eq_false_iff.mpr failed
  rw [not_or, not_ne_iff, Bool.not_eq_false] at shape
  have reads : events.items.map read = made.fed config := by
    rw [isFed, admitted, if_pos ⟨Bool.eq_false_iff.mpr mode, shape.1, shape.2,
      (Bool.not_eq_false _).mp busy⟩]
  rw [reads]
  exact answered_batch running (idle running)

theorem attempt_answered (self : Backtester) (made : Attempt)
    (idle : self.failed = false → Idle config self.state) :
    Answered config self (attempt config self made).2 made (attempt config self made).1 := by
  obtain ⟨call, locked⟩ := made
  cases call with
  | processBatch events => exact answered_admitBatch idle rfl
  | processQueueBatch events => exact answered_admitBatch idle rfl
  | result => exact answered_result locked idle rfl

/-- A backtester that has not failed has replayed what it was fed. -/
theorem attempts_replayed {done : List Observation} {self : Backtester}
    (replayed : self.failed = false → Replayed config done self.state) (history : List Attempt) :
    let after := attempts config self history
    (∀ reply ∈ after.1, reply ≠ .error .undefinedBehaviour) ∧
      (self.failed = true → after.2.failed = true ∧ ∀ reply ∈ after.1, ∃ error,
        reply = .error error) ∧
      (after.2.failed = false → Replayed config (done ++ fed config history) after.2.state) := by
  induction history generalizing done self with
  | nil =>
      refine ⟨?_, ?_, ?_⟩
      · intro reply absent
        cases absent
      · intro failed
        exact ⟨failed, fun reply absent => by cases absent⟩
      · intro running
        have none : done ++ fed config [] = done := List.append_nil done
        rw [none]
        exact replayed running
  | cons made later ih =>
      have answered := attempt_answered self made fun running => (replayed running).idle
      have moved : (attempt config self made).2.failed = false →
          Replayed config (done ++ made.fed config) (attempt config self made).2.state := by
        intro running
        obtain ⟨before, run⟩ := answered.moved running
        exact (replayed before).onward (made.fed_suited config) run
      obtain ⟨defined, stuck, onward⟩ := ih moved
      refine ⟨?_, ?_, ?_⟩
      · exact List.forall_mem_cons.mpr ⟨answered.defined, defined⟩
      · intro failed
        obtain ⟨stays, refused⟩ := answered.stuck failed
        obtain ⟨final, rest⟩ := stuck stays
        exact ⟨final, List.forall_mem_cons.mpr ⟨refused, rest⟩⟩
      · intro running
        have all := onward running
        rw [List.append_assoc] at all
        exact all

theorem fresh_replayed (history : List Attempt)
    (running : (attempts config (fresh config) history).2.failed = false) :
    Replayed config (fed config history) (attempts config (fresh config) history).2.state :=
  (attempts_replayed (fun _ => Replayed.start config) history).2.2 running

end Calls

end Gambit.TopOfBook
