import Gambit.Accounting.DailyPnl
import Mathlib.Data.Prod.Lex
import Mathlib.Data.String.Basic

/-!
# P&L by contract

`df_pnl` in account.py and `df` in contract_pnl.py.  The rows of a contract are
those of its trades and of its valuations; rows at the end over which the net
P&L does not change are cut.
-/

set_option autoImplicit false

namespace Gambit

/-- The columns of a valuation.  A missing price is NaN. -/
structure NetCells where
  price : Option ℚ
  unrealized : ℚ
  netPnl : ℚ
deriving DecidableEq

/-- A row of `df`.  The columns of a valuation are null before the first one. -/
structure ContractRow where
  symbol : String
  timestamp : Timestamp
  position : Int
  net : Option NetCells
  realized : ℚ
  commission : ℚ
  fee : ℚ
deriving DecidableEq

namespace ContractPnl

/-- `all_timestamps` -/
def timestamps (self : ContractPnl) : List Timestamp :=
  npUnique (self.tradePnl.keys ++ self.netPnl.keys)

/-- Both sides joined as of a timestamp.  Before the first trade the columns of
the trades are zero. -/
def rowAt (self : ContractPnl) (timestamp : Timestamp) : ContractRow :=
  let trade := (itemBefore self.tradePnl timestamp).elim LedgerEntry.zero Prod.snd
  { symbol := self.contract.symbol
    timestamp := timestamp
    position := trade.position
    net := (itemBefore self.netPnl timestamp).map fun item =>
      ⟨item.2.price, item.2.unrealized, item.2.netPnl⟩
    realized := trade.realized
    commission := trade.commission
    fee := trade.fee }

/-- `df`.  Both sides of its last join have the same timestamps in the same order. -/
def df (self : ContractPnl) : List ContractRow := self.timestamps.map self.rowAt

end ContractPnl

/-- Where `np.diff` is not zero.  The difference with a null is NaN. -/
def diffNonzero (values : List (Option ℚ)) : List Bool :=
  List.zipWith (fun a b => decide (a = none ∨ b = none ∨ a ≠ b)) values values.tail

/-- `np.nonzero` -/
def npNonzero (flags : List Bool) : List Nat :=
  (List.range flags.length).filter fun i => flags[i]? = some true

def ContractRow.netPnl (self : ContractRow) : Option ℚ := self.net.map NetCells.netPnl

/-- The rows up to the last change of the net P&L. -/
def cutTail (rows : List ContractRow) : List ContractRow :=
  if 1 < rows.length then
    match (npNonzero (diffNonzero (rows.map ContractRow.netPnl))).getLast? with
    | some i => rows.take (i + 2)
    | none => rows
  else rows

structure DetailedRow extends ContractRow where
  contractGroup : String
deriving DecidableEq

def DetailedRow.key (self : DetailedRow) : Timestamp ×ₗ String ×ₗ String :=
  toLex (self.timestamp, toLex (self.contractGroup, self.symbol))

/-- `df_pnl`.  The order in which the groups are visited is lost in the sort. -/
def Account.dfPnl (setup : AccountSetup) (contractGroups : Option (List String)) (self : Account) :
    Except Exn (List DetailedRow) := do
  let contractGroups :=
    contractGroups.getD (self.contracts.values.map Contract.contractGroup).eraseDups
  let dfs ← contractGroups.mapM fun name => do
    requireConfiguredGroup setup name
    .ok ((setup.registry.groupContracts name).filterMap fun contract =>
      (self.symbolPnls.get? contract.symbol).map fun symbolPnl =>
        (cutTail symbolPnl.df).map fun row => (⟨row, name⟩ : DetailedRow))
  .ok (dfs.flatten.flatten.insertionSort fun a b => a.key ≤ b.key)

/-! ## What the cut leaves -/

theorem mem_npNonzero {flags : List Bool} {i : Nat} :
    i ∈ npNonzero flags ↔ flags[i]? = some true := by
  simp only [npNonzero, List.mem_filter, List.mem_range, decide_eq_true_eq, and_iff_right_iff_imp]
  intro found
  exact (List.getElem?_eq_some_iff.mp found).1

theorem npNonzero_sorted (flags : List Bool) : (npNonzero flags).Pairwise (· < ·) :=
  List.Pairwise.filter _ List.pairwise_lt_range

theorem diffNonzero_getElem? {values : List (Option ℚ)} {i : Nat} {a b : Option ℚ}
    (first : values[i]? = some a) (second : values[i + 1]? = some b) :
    (diffNonzero values)[i]? = some (decide (a = none ∨ b = none ∨ a ≠ b)) := by
  rw [diffNonzero, List.getElem?_zipWith, first, List.getElem?_tail, second]

/-- Values without a difference are the first value over and over. -/
theorem eq_of_no_diff {values : List (Option ℚ)} (smooth : ∀ i a b, values[i]? = some a →
    values[i + 1]? = some b → a = b) : ∀ a ∈ values, values.head? = some a := by
  induction values with
  | nil => simp
  | cons value values ih =>
      intro a member
      have rest : ∀ b ∈ values, values.head? = some b :=
        ih fun i a b first second => smooth (i + 1) a b first second
      rcases List.mem_cons.mp member with rfl | later
      · rfl
      · have next := rest a later
        rw [List.head?_eq_getElem?] at next
        exact congrArg some (smooth 0 value a rfl next)

theorem cutTail_prefix (rows : List ContractRow) : cutTail rows <+: rows := by
  unfold cutTail
  split
  · split
    · exact List.take_prefix ..
    · exact List.prefix_refl _
  · exact List.prefix_refl _

/-- Where no row from an index on differs from the one before, they agree. -/
theorem netPnl_eq_of_smooth {rows : List ContractRow}
    (smooth : ∀ i, i ∉ npNonzero (diffNonzero (rows.map ContractRow.netPnl))) :
    ∀ a ∈ rows, ∀ b ∈ rows, a.netPnl = b.netPnl := by
  have heads : ∀ value ∈ rows.map ContractRow.netPnl,
      (rows.map ContractRow.netPnl).head? = some value := by
    refine eq_of_no_diff fun i a b first second => ?_
    have zero := smooth i
    rw [mem_npNonzero, diffNonzero_getElem? first second, Option.some.injEq,
      decide_eq_true_eq] at zero
    by_contra differs
    exact zero (Or.inr (Or.inr differs))
  intro a memberA b memberB
  have headA := heads _ (List.mem_map_of_mem memberA)
  have headB := heads _ (List.mem_map_of_mem memberB)
  exact Option.some.inj (headA.symm.trans headB)

theorem diffNonzero_drop (values : List (Option ℚ)) (n : Nat) :
    diffNonzero (values.drop n) = (diffNonzero values).drop n := by
  rw [diffNonzero, diffNonzero, List.drop_zipWith, List.tail_drop, List.drop_tail]

/-- The cut keeps all rows, and the net P&L never differs, or it ends at the
last row that differs from the one before. -/
theorem cutTail_cases (rows : List ContractRow) :
    (cutTail rows = rows ∧ ∀ a ∈ rows, ∀ b ∈ rows, a.netPnl = b.netPnl) ∨
    ∃ before a b after, rows = before ++ a :: b :: after ∧ cutTail rows = before ++ [a, b] ∧
      (a.netPnl = none ∨ b.netPnl = none ∨ a.netPnl ≠ b.netPnl) ∧
      ∀ c ∈ after, c.netPnl = b.netPnl := by
  unfold cutTail
  split
  · cases last : (npNonzero (diffNonzero (rows.map ContractRow.netPnl))).getLast? with
    | none =>
        refine Or.inl ⟨rfl, netPnl_eq_of_smooth fun i => ?_⟩
        rw [List.getLast?_eq_none_iff.mp last]
        exact List.not_mem_nil
    | some i =>
        right
        obtain ⟨nonzero, greatest⟩ :=
          (SortedLists.getLast?_eq_some_iff_greatest ((npNonzero_sorted _).imp le_of_lt)).mp last
        rw [mem_npNonzero] at nonzero
        have inside : i + 1 < rows.length := by
          have bound := (List.getElem?_eq_some_iff.mp nonzero).1
          simp only [diffNonzero, List.length_zipWith, List.length_map, List.length_tail] at bound
          omega
        have split : rows = rows.take i ++ rows[i] :: rows[i + 1] :: rows.drop (i + 2) := by
          rw [List.getElem_cons_drop, List.getElem_cons_drop, List.take_append_drop]
        refine ⟨rows.take i, rows[i], rows[i + 1], rows.drop (i + 2), split, ?_, ?_, ?_⟩
        · dsimp only
          rw [List.take_add, List.drop_eq_getElem_cons (by omega), List.drop_eq_getElem_cons inside]
          rfl
        · have first : (rows.map ContractRow.netPnl)[i]? = some rows[i].netPnl := by
            rw [List.getElem?_map, List.getElem?_eq_getElem (by omega)]
            rfl
          have second : (rows.map ContractRow.netPnl)[i + 1]? = some rows[i + 1].netPnl := by
            rw [List.getElem?_map, List.getElem?_eq_getElem inside]
            rfl
          rw [diffNonzero_getElem? first second, Option.some.injEq, decide_eq_true_eq] at nonzero
          exact nonzero
        · have smooth : ∀ j, j ∉ npNonzero
              (diffNonzero ((rows.drop (i + 1)).map ContractRow.netPnl)) := by
            intro j later
            rw [mem_npNonzero, List.map_drop, diffNonzero_drop, List.getElem?_drop] at later
            have bound := greatest _ (mem_npNonzero.mpr later)
            omega
          have tail : rows.drop (i + 1) = rows[i + 1] :: rows.drop (i + 2) :=
            List.drop_eq_getElem_cons inside
          rw [tail] at smooth
          intro c member
          exact netPnl_eq_of_smooth smooth c (List.mem_cons_of_mem _ member) _
            (List.mem_cons_self ..)
  · refine Or.inl ⟨rfl, netPnl_eq_of_smooth fun i => ?_⟩
    rename_i short
    rw [mem_npNonzero]
    intro found
    have bound := (List.getElem?_eq_some_iff.mp found).1
    simp only [diffNonzero, List.length_zipWith, List.length_map, List.length_tail] at bound
    omega

end Gambit
