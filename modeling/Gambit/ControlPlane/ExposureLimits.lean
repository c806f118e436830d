import Gambit.ControlPlane.Levels
import Gambit.Lib.Caps
import Gambit.Lib.Raising
import Gambit.Python

/-!
# Hierarchical exposure limits

`HierarchicalExposureLimiter` of control_plane.py: limits of instruments, then
groups, strategies and the portfolio scale the positions they match.
-/

set_option autoImplicit false

namespace Gambit

open Raising

/-- Maximum gross exposure of one node of the hierarchy. -/
structure ExposureLimit where
  level : ControlLevel
  maximum : ℚ
  key : Option String
  positive : 0 < maximum
  keyed : if level = .portfolio then key = none else key ≠ none ∧ key ≠ some ""

/-- A row of the position frame as it is handed in, with nulls. -/
structure PositionRow where
  symbol : Option String
  strategy : Option String
  contractGroup : Option String
  netExposure : Option Scalar
deriving DecidableEq

structure PositionFrame where
  columns : List String
  rows : List PositionRow

/-- A row of the result. -/
structure LimitedRow where
  symbol : String
  strategy : String
  contractGroup : String
  preLimitNetExposure : ℚ
  netExposure : ℚ
  limitMultiplier : ℚ
deriving DecidableEq, Repr

/-- `gross_exposure` -/
def LimitedRow.grossExposure (row : LimitedRow) : ℚ := |row.netExposure|

structure Diagnostic where
  level : ControlLevel
  key : Option String
  grossBefore : ℚ
  limit : ℚ
  multiplier : ℚ
  grossAfter : ℚ
  clipped : Bool
deriving DecidableEq, Repr

structure ExposureLimitResult where
  columns : List String
  rows : List LimitedRow
  diagnostics : List Diagnostic

structure HierarchicalExposureLimiter where
  limits : List ExposureLimit
  nonempty : limits ≠ []
  unique : (limits.map fun limit => (limit.level, limit.key)).Nodup

/-- `_mask` -/
def ExposureLimit.mask (limit : ExposureLimit) (row : LimitedRow) : Bool :=
  match limit.level with
  | .portfolio => true
  | .strategy => some row.strategy = limit.key
  | .group => some row.contractGroup = limit.key
  | .instrument => some row.symbol = limit.key

/-- `ordering` -/
def ControlLevel.ordering : ControlLevel → Nat
  | .instrument => 0
  | .group => 1
  | .strategy => 2
  | .portfolio => 3

def requiredColumns : List String := ["symbol", "strategy", "contract_group", "net_exposure"]

/-- A row without nulls before any limit. -/
def PositionRow.start (row : PositionRow) : Except Exn LimitedRow :=
  match row with
  | ⟨some symbol, some strategy, some contractGroup, some (.real net)⟩ =>
      .ok ⟨symbol, strategy, contractGroup, net, net, 1⟩
  | _ => .error (.valueError "net exposure must be finite")

/-- The checks of `apply`, a column at a time, and the columns it starts from. -/
def PositionFrame.validated (positions : PositionFrame) : Except Exn (List LimitedRow) :=
  if ¬ ∀ column ∈ requiredColumns, column ∈ positions.columns then
    .error (.valueError "position columns are missing")
  else if positions.rows = [] then .error (.valueError "positions cannot be empty")
  else if positions.rows.any (·.symbol.isNone) then
    .error (.valueError "position symbol cannot be null")
  else if positions.rows.any (·.strategy.isNone) then
    .error (.valueError "position strategy cannot be null")
  else if positions.rows.any (·.contractGroup.isNone) then
    .error (.valueError "position contract_group cannot be null")
  else if positions.rows.any (·.netExposure.isNone) then
    .error (.valueError "net exposure cannot be null")
  else positions.rows.mapM PositionRow.start

/-- `with_columns` keeps the columns there are and appends the new ones. -/
def withColumns (columns added : List String) : List String :=
  columns ++ added.filter fun column => column ∉ columns

def ExposureLimit.multiplier (limit : ExposureLimit) (grossBefore : ℚ) : ℚ :=
  if 0 < grossBefore then min 1 (limit.maximum / grossBefore) else 1

/-- The body of the loop over the limits. -/
def applyLimit (state : List LimitedRow × List Diagnostic) (limit : ExposureLimit) :
    Except Exn (List LimitedRow × List Diagnostic) :=
  let (result, rows) := state
  let matched := result.filter limit.mask
  if matched = [] then .error (.valueError "exposure limit matches no positions")
  else
    let grossBefore := (matched.map fun row => |row.netExposure|).sum
    let multiplier := limit.multiplier grossBefore
    let result := result.map fun row =>
      if limit.mask row then
        { row with
          netExposure := row.netExposure * multiplier
          limitMultiplier := row.limitMultiplier * multiplier }
      else row
    .ok (result, rows ++
      [⟨limit.level, limit.key, grossBefore, limit.maximum, multiplier, grossBefore * multiplier,
        multiplier < 1⟩])

def sortedLimits (limits : List ExposureLimit) : List ExposureLimit :=
  limits.insertionSort fun a b => a.level.ordering ≤ b.level.ordering

def HierarchicalExposureLimiter.apply (limiter : HierarchicalExposureLimiter)
    (positions : PositionFrame) : Except Exn ExposureLimitResult := do
  let start ← positions.validated
  let (result, diagnostics) ← (sortedLimits limiter.limits).foldlM applyLimit (start, [])
  .ok ⟨withColumns positions.columns
    ["pre_limit_net_exposure", "net_exposure", "limit_multiplier", "gross_exposure"],
    result, diagnostics⟩

/-- The positions of a result as a frame. -/
def ExposureLimitResult.positions (result : ExposureLimitResult) : PositionFrame where
  columns := result.columns
  rows := result.rows.map fun row =>
    ⟨some row.symbol, some row.strategy, some row.contractGroup, some (.real row.netExposure)⟩

/-! ## Limits as caps -/

def rowScaling : Caps.Scaling LimitedRow ℚ where
  weight := LimitedRow.netExposure
  scale k row :=
    { row with netExposure := row.netExposure * k, limitMultiplier := row.limitMultiplier * k }
  weight_scale k row := mul_comm row.netExposure k
  scale_scale j k row := by
    simp only [LimitedRow.mk.injEq, true_and]
    exact ⟨by ring, by ring⟩
  scale_one row := by simp

theorem mask_scale (limit : ExposureLimit) (k : ℚ) (row : LimitedRow) :
    limit.mask (rowScaling.scale k row) = limit.mask row := by
  unfold ExposureLimit.mask
  cases limit.level <;> rfl

def ExposureLimit.cap (limit : ExposureLimit) : Caps.Cap rowScaling where
  covers := limit.mask
  maximum := limit.maximum
  positive := limit.positive
  covers_scale := mask_scale limit

/-- The limit matches a position. -/
def ExposureLimit.Matches (limit : ExposureLimit) (rows : List LimitedRow) : Prop :=
  ∃ row ∈ rows, limit.mask row = true

variable {limit : ExposureLimit} {limits : List ExposureLimit} {rows rows' : List LimitedRow}
  {diagnostics diagnostics' : List Diagnostic} {positions : PositionFrame}

theorem matched_ne_nil : rows.filter limit.mask ≠ [] ↔ limit.Matches rows := by
  rw [Ne, List.filter_eq_nil_iff]
  simp [ExposureLimit.Matches]

theorem applyLimit_ok (diagnostics : List Diagnostic) (found : limit.Matches rows) :
    ∃ diagnostic, applyLimit (rows, diagnostics) limit =
      .ok (limit.cap.apply rows, diagnostics ++ [diagnostic]) :=
  ⟨_, if_neg (matched_ne_nil.mpr found)⟩

theorem applyLimit_error (absent : ¬ limit.Matches rows) :
    applyLimit (rows, diagnostics) limit =
      .error (.valueError "exposure limit matches no positions") :=
  if_pos (not_not.mp (mt matched_ne_nil.mp absent))

theorem matches_apply (other : ExposureLimit) :
    other.Matches (limit.cap.apply rows) ↔ other.Matches rows := by
  unfold ExposureLimit.Matches Caps.Cap.apply
  simp only [List.mem_map, exists_exists_and_eq_and]
  refine exists_congr fun row => and_congr_right fun _ => ?_
  exact iff_of_eq (congrArg (· = true) (@Caps.Cap.covers_scaleCovered _ _ _ _ _ limit.cap other.cap _ row))

/-- The loop over the limits: every limit has to match, and the caps are applied in turn. -/
theorem limitsLoop_ok :
    limits.foldlM applyLimit (rows, diagnostics) = .ok (rows', diagnostics') →
      (∀ limit ∈ limits, limit.Matches rows) ∧
        rows' = Caps.applyAll (limits.map ExposureLimit.cap) rows := by
  intro run
  induction limits generalizing rows diagnostics with
  | nil =>
      cases run
      exact ⟨fun _ none => absurd none List.not_mem_nil, rfl⟩
  | cons limit limits ih =>
      rw [List.foldlM_cons] at run
      obtain ⟨next, step, run⟩ := bind_ok.mp run
      by_cases found : limit.Matches rows
      · obtain ⟨diagnostic, applied⟩ := applyLimit_ok diagnostics found
        rw [applied] at step
        cases step
        obtain ⟨all, same⟩ := ih run
        refine ⟨List.forall_mem_cons.mpr ⟨found, fun other member => ?_⟩, same⟩
        exact (matches_apply other).mp (all other member)
      · rw [applyLimit_error found] at step
        cases step

theorem limitsLoop_runs (diagnostics : List Diagnostic)
    (all : ∀ limit ∈ limits, limit.Matches rows) :
    ∃ diagnostics', limits.foldlM applyLimit (rows, diagnostics) =
      .ok (Caps.applyAll (limits.map ExposureLimit.cap) rows, diagnostics') := by
  induction limits generalizing rows diagnostics with
  | nil => exact ⟨diagnostics, rfl⟩
  | cons limit limits ih =>
      rw [List.forall_mem_cons] at all
      obtain ⟨diagnostic, applied⟩ := applyLimit_ok diagnostics all.1
      have later : ∀ other ∈ limits, other.Matches (limit.cap.apply rows) :=
        fun other member => (matches_apply other).mpr (all.2 other member)
      obtain ⟨more, run⟩ := ih (diagnostics ++ [diagnostic]) later
      exact ⟨more, by rw [List.foldlM_cons, applied]; exact run⟩

/-! ## The order of the limits -/

theorem ordering_injective {a b : ControlLevel} (same : a.ordering = b.ordering) : a = b := by
  cases a <;> cases b <;> first | rfl | cases same

theorem sortedLimits_perm (limits : List ExposureLimit) : (sortedLimits limits).Perm limits :=
  List.perm_insertionSort _ limits

theorem sortedLimits_ranked (limits : List ExposureLimit) :
    (sortedLimits limits).Pairwise fun a b => a.level.ordering ≤ b.level.ordering := by
  have total : Std.Total fun a b : ExposureLimit => a.level.ordering ≤ b.level.ordering :=
    ⟨fun a b => le_total _ _⟩
  have trans : IsTrans ExposureLimit fun a b => a.level.ordering ≤ b.level.ordering :=
    ⟨fun a b c first second => le_trans first second⟩
  exact List.pairwise_insertionSort _ limits

/-- Different limits of one level match nothing in common. -/
theorem apart_of_level {a b : ExposureLimit} (level : a.level = b.level)
    (other : (a.level, a.key) ≠ (b.level, b.key)) : a.cap.Apart b.cap := by
  have keys : a.key ≠ b.key := fun same => other (Prod.ext level same)
  rintro row ⟨first, second⟩
  change a.mask row = true at first
  change b.mask row = true at second
  unfold ExposureLimit.mask at first second
  rw [← level] at second
  cases kind : a.level with
  | portfolio =>
      have keyedA := a.keyed
      have keyedB := b.keyed
      rw [if_pos kind] at keyedA
      rw [if_pos (level ▸ kind)] at keyedB
      exact keys (keyedA.trans keyedB.symm)
  | strategy | group | instrument =>
      simp only [kind, decide_eq_true_eq] at first second
      exact keys (first.symm.trans second)

/-- The caps of limits given in another order come to the same. -/
theorem applyAll_sortedLimits {others : List ExposureLimit}
    (unique : (limits.map fun limit => (limit.level, limit.key)).Nodup)
    (same : others.Perm limits) (rows : List LimitedRow) :
    Caps.applyAll ((sortedLimits others).map ExposureLimit.cap) rows =
      Caps.applyAll ((sortedLimits limits).map ExposureLimit.cap) rows := by
  unfold Caps.applyAll
  rw [List.foldl_map, List.foldl_map]
  have perm : (sortedLimits others).Perm (sortedLimits limits) :=
    (sortedLimits_perm others).trans (same.trans (sortedLimits_perm limits).symm)
  refine Caps.foldl_eq_of_ranked (fun limit : ExposureLimit => limit.level.ordering) perm
    (sortedLimits_ranked others) (sortedLimits_ranked limits) ?_ rows
  intro a inA b inB rank rows
  have memberA := same.subset ((sortedLimits_perm others).subset inA)
  have memberB := same.subset ((sortedLimits_perm others).subset inB)
  by_cases identity : (a.level, a.key) = (b.level, b.key)
  · rw [List.inj_on_of_nodup_map unique memberA memberB identity]
  · exact (apart_of_level (ordering_injective rank) identity).symm.apply_comm

/-! ## What `apply` returns -/

/-- A position before and after the limits. -/
structure Limited (before : PositionRow) (after : LimitedRow) : Prop where
  symbol : before.symbol = some after.symbol
  strategy : before.strategy = some after.strategy
  contractGroup : before.contractGroup = some after.contractGroup
  given : before.netExposure = some (.real after.preLimitNetExposure)
  sign : SignType.sign after.netExposure = SignType.sign after.preLimitNetExposure
  shrinks : |after.netExposure| ≤ |after.preLimitNetExposure|
  product : after.netExposure = after.preLimitNetExposure * after.limitMultiplier

theorem start_ok {before : PositionRow} {row : LimitedRow} (run : before.start = .ok row) :
    Limited before row ∧ row.limitMultiplier = 1 ∧ row.preLimitNetExposure = row.netExposure := by
  obtain ⟨symbol, strategy, contractGroup, netExposure⟩ := before
  unfold PositionRow.start at run
  split at run
  · rename_i same
    cases run
    cases same
    exact ⟨⟨rfl, rfl, rfl, rfl, rfl, le_refl _, (mul_one _).symm⟩, rfl, rfl⟩
  · cases run

theorem Limited.shrunk {before : PositionRow} {row after : LimitedRow}
    (limited : Limited before row) (shrunk : Caps.Shrunk rowScaling row after) :
    Limited before after := by
  obtain ⟨k, positive, small, rfl⟩ := shrunk
  obtain ⟨symbol, strategy, contractGroup, given, sign, shrinks, product⟩ := limited
  refine ⟨symbol, strategy, contractGroup, given, ?_, ?_, ?_⟩
  · change SignType.sign (row.netExposure * k) = _
    rw [sign_mul, sign_pos positive, mul_one]
    exact sign
  · change |row.netExposure * k| ≤ _
    rw [abs_mul, abs_of_pos positive]
    exact (mul_le_of_le_one_right (abs_nonneg _) small).trans shrinks
  · change row.netExposure * k = row.preLimitNetExposure * (row.limitMultiplier * k)
    rw [product, mul_assoc]

theorem limited_applyAll {before : List PositionRow} (caps : List (Caps.Cap rowScaling))
    (start : List.Forall₂ Limited before rows) :
    List.Forall₂ Limited before (Caps.applyAll caps rows) := by
  have shrunk := Caps.shrunk_applyAll caps rows
  generalize Caps.applyAll caps rows = after at shrunk
  induction start generalizing after with
  | nil =>
      cases shrunk
      exact .nil
  | cons limited _ ih =>
      cases shrunk with
      | cons here rest => exact .cons (limited.shrunk here) (ih _ rest)

theorem mapM_start_ok {before : List PositionRow} (run : before.mapM PositionRow.start = .ok rows) :
    List.Forall₂ Limited before rows := by
  induction before generalizing rows with
  | nil =>
      cases run
      exact .nil
  | cons row before ih =>
      rw [List.mapM_cons] at run
      obtain ⟨first, here, run⟩ := bind_ok.mp run
      obtain ⟨rest, there, run⟩ := bind_ok.mp run
      cases run
      exact .cons (start_ok here).1 (ih there)

theorem PositionFrame.validated_ok (run : positions.validated = .ok rows) :
    (∀ column ∈ requiredColumns, column ∈ positions.columns) ∧ positions.rows ≠ [] ∧
      positions.rows.mapM PositionRow.start = .ok rows := by
  unfold PositionFrame.validated at run
  obtain ⟨columns, run⟩ := refuse_ok.mp run
  obtain ⟨some, run⟩ := refuse_ok.mp run
  obtain ⟨-, run⟩ := refuse_ok.mp run
  obtain ⟨-, run⟩ := refuse_ok.mp run
  obtain ⟨-, run⟩ := refuse_ok.mp run
  obtain ⟨-, run⟩ := refuse_ok.mp run
  exact ⟨not_not.mp columns, some, run⟩

/-- A valid frame whose positions every limit matches is limited, by the caps in turn. -/
theorem HierarchicalExposureLimiter.apply_ok {limiter : HierarchicalExposureLimiter}
    (valid : positions.validated = .ok rows)
    (matching : ∀ limit ∈ limiter.limits, limit.Matches rows) :
    ∃ diagnostics, limiter.apply positions =
      .ok ⟨withColumns positions.columns
        ["pre_limit_net_exposure", "net_exposure", "limit_multiplier", "gross_exposure"],
        Caps.applyAll ((sortedLimits limiter.limits).map ExposureLimit.cap) rows, diagnostics⟩ := by
  have all : ∀ limit ∈ sortedLimits limiter.limits, limit.Matches rows :=
    fun limit member => matching limit ((sortedLimits_perm limiter.limits).subset member)
  obtain ⟨diagnostics, run⟩ := limitsLoop_runs [] all
  refine ⟨diagnostics, ?_⟩
  rw [apply, valid]
  change (List.foldlM applyLimit (rows, []) _ >>= _) = _
  rw [run]
  rfl

/-! ## Limiting again -/

/-- What a second `apply` starts from. -/
def LimitedRow.again (row : LimitedRow) : LimitedRow :=
  { row with preLimitNetExposure := row.netExposure, limitMultiplier := 1 }

theorem mem_withColumns {columns added : List String} {column : String}
    (member : column ∈ columns) : column ∈ withColumns columns added :=
  List.mem_append_left _ member

theorem ExposureLimitResult.validated_positions {result : ExposureLimitResult}
    (columns : ∀ column ∈ requiredColumns, column ∈ result.columns) (some : result.rows ≠ []) :
    result.positions.validated = .ok (result.rows.map LimitedRow.again) := by
  unfold PositionFrame.validated positions
  rw [if_neg (not_not.mpr columns), if_neg (mt List.map_eq_nil_iff.mp some), if_neg (by simp),
    if_neg (by simp), if_neg (by simp), if_neg (by simp)]
  rw [List.mapM_map]
  exact mapM_ok_of_each fun row _ => rfl

theorem mask_again (limit : ExposureLimit) (row : LimitedRow) :
    limit.mask row.again = limit.mask row := by
  unfold ExposureLimit.mask
  cases limit.level <;> rfl

theorem gross_again (limit : ExposureLimit) :
    Caps.gross rowScaling limit.cap.covers (rows.map LimitedRow.again) =
      Caps.gross rowScaling limit.cap.covers rows := by
  induction rows with
  | nil => rfl
  | cons row rows ih =>
      rw [List.map_cons, Caps.gross_cons, Caps.gross_cons, ih]
      change (if limit.mask row.again then |row.netExposure| else 0) + _ = _
      rw [mask_again]
      rfl

theorem matches_applyAll (caps : List ExposureLimit) (limit : ExposureLimit)
    (rows : List LimitedRow) :
    limit.Matches (Caps.applyAll (caps.map ExposureLimit.cap) rows) ↔ limit.Matches rows := by
  induction caps generalizing rows with
  | nil => rfl
  | cons cap caps ih => exact (ih (cap.cap.apply rows)).trans (matches_apply limit)

theorem matches_again : limit.Matches (rows.map LimitedRow.again) ↔ limit.Matches rows := by
  unfold ExposureLimit.Matches
  simp only [List.mem_map, exists_exists_and_eq_and, mask_again]

/-- Gross exposure of the positions in the scope of a limit. -/
def ExposureLimit.grossIn (limit : ExposureLimit) (rows : List LimitedRow) : ℚ :=
  ((rows.filter limit.mask).map LimitedRow.grossExposure).sum

theorem HierarchicalExposureLimiter.within (limiter : HierarchicalExposureLimiter)
    (rows : List LimitedRow) : ∀ limit ∈ limiter.limits,
      limit.grossIn (Caps.applyAll ((sortedLimits limiter.limits).map ExposureLimit.cap) rows) ≤
        limit.maximum := by
  intro limit member
  have sorted : limit.cap ∈ (sortedLimits limiter.limits).map ExposureLimit.cap :=
    List.mem_map_of_mem ((sortedLimits_perm limiter.limits).symm.subset member)
  exact Caps.applyAll_within _ rows limit.cap sorted

theorem HierarchicalExposureLimiter.apply_again {limiter : HierarchicalExposureLimiter}
    {result : ExposureLimitResult} (columns : ∀ column ∈ requiredColumns, column ∈ result.columns)
    (some : result.rows ≠ []) (matching : ∀ limit ∈ limiter.limits, limit.Matches result.rows)
    (within : ∀ limit ∈ limiter.limits, limit.grossIn result.rows ≤ limit.maximum) :
    ∃ again, limiter.apply result.positions = .ok again ∧
      again.rows.map LimitedRow.netExposure = result.rows.map LimitedRow.netExposure := by
  have valid := result.validated_positions columns some
  have still : ∀ limit ∈ limiter.limits, limit.Matches (result.rows.map LimitedRow.again) :=
    fun limit member => matches_again.mpr (matching limit member)
  obtain ⟨diagnostics, run⟩ := apply_ok valid still
  refine ⟨_, run, ?_⟩
  have idle : Caps.applyAll ((sortedLimits limiter.limits).map ExposureLimit.cap)
      (result.rows.map LimitedRow.again) = result.rows.map LimitedRow.again := by
    refine Caps.applyAll_of_within fun cap member => ?_
    obtain ⟨limit, inSorted, rfl⟩ := List.mem_map.mp member
    rw [gross_again]
    exact within limit ((sortedLimits_perm limiter.limits).subset inSorted)
  change (Caps.applyAll _ (result.rows.map LimitedRow.again)).map LimitedRow.netExposure = _
  rw [idle, List.map_map]
  rfl

/-- All limits hold of the result at once, every position keeps its sign and only shrinks, the
order of the limits does not matter, and limiting the result changes nothing. -/
theorem HierarchicalExposureLimiter.apply_satisfies_limits {limiter : HierarchicalExposureLimiter}
    (valid : positions.validated = .ok rows)
    (matching : ∀ limit ∈ limiter.limits, limit.Matches rows) :
    ∃ result, limiter.apply positions = .ok result ∧
      (∀ limit ∈ limiter.limits, limit.grossIn result.rows ≤ limit.maximum) ∧
      List.Forall₂ Limited positions.rows result.rows ∧
      (∀ other : HierarchicalExposureLimiter, other.limits.Perm limiter.limits →
        ∃ result', other.apply positions = .ok result' ∧ result'.rows = result.rows) ∧
      ∃ again, limiter.apply result.positions = .ok again ∧
        again.rows.map LimitedRow.netExposure = result.rows.map LimitedRow.netExposure := by
  obtain ⟨diagnostics, run⟩ := apply_ok valid matching
  obtain ⟨columns, some, start⟩ := positions.validated_ok valid
  have limited := limited_applyAll ((sortedLimits limiter.limits).map ExposureLimit.cap)
    (mapM_start_ok start)
  refine ⟨_, run, limiter.within rows, limited, fun other same => ?_, ?_⟩
  · have others : ∀ limit ∈ other.limits, limit.Matches rows :=
      fun limit member => matching limit (same.subset member)
    obtain ⟨diagnostics', runOther⟩ := apply_ok valid others
    exact ⟨_, runOther, applyAll_sortedLimits limiter.unique same rows⟩
  · refine apply_again (fun column member => mem_withColumns (columns column member)) ?_
      (fun limit member => (matches_applyAll _ limit rows).mpr (matching limit member))
      (limiter.within rows)
    intro empty
    change Caps.applyAll _ rows = [] at empty
    rw [empty] at limited
    exact some (List.forall₂_nil_right_iff.mp limited)

/-- The strategy and the group overlap in the second position. -/
def overlappingPositions : PositionFrame where
  columns := requiredColumns
  rows :=
    [⟨some "A", some "trend", some "equity", some (.real 600)⟩,
      ⟨some "B", some "trend", some "rates", some (.real (-800))⟩,
      ⟨some "C", some "carry", some "rates", some (.real 400)⟩]

def overlappingLimiter : HierarchicalExposureLimiter where
  limits :=
    [⟨.instrument, 500, some "A", by decide, by decide⟩,
      ⟨.group, 900, some "rates", by decide, by decide⟩,
      ⟨.strategy, 1000, some "trend", by decide, by decide⟩,
      ⟨.portfolio, 1200, none, by decide, by decide⟩]
  nonempty := by decide
  unique := by decide

theorem HierarchicalExposureLimiter.apply_satisfies_limits_overlapping :
    ∃ result, overlappingLimiter.apply overlappingPositions = .ok result ∧
      ∀ limit ∈ overlappingLimiter.limits, limit.grossIn result.rows ≤ limit.maximum := by
  have valid : overlappingPositions.validated =
      .ok [⟨"A", "trend", "equity", 600, 600, 1⟩, ⟨"B", "trend", "rates", -800, -800, 1⟩,
        ⟨"C", "carry", "rates", 400, 400, 1⟩] := by decide +kernel
  have matching : ∀ limit ∈ overlappingLimiter.limits, limit.Matches
      [⟨"A", "trend", "equity", 600, 600, 1⟩, ⟨"B", "trend", "rates", -800, -800, 1⟩,
        ⟨"C", "carry", "rates", 400, 400, 1⟩] := by
    simp only [overlappingLimiter, List.forall_mem_cons, ExposureLimit.Matches,
      List.exists_mem_cons_iff]
    decide
  obtain ⟨result, run, within, -⟩ := apply_satisfies_limits valid matching
  exact ⟨result, run, within⟩

end Gambit
