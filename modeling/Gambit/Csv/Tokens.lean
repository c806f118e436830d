import Gambit.Python
import Mathlib.Data.Int.Interval

/-!
# Cutting a line into fields

`tokenize_line` works in the line's own bytes: it ends each field with a NUL
where its delimiter was and returns pointers to the fields asked for.
-/

set_option autoImplicit false

namespace Gambit.Csv

/-- The C string at an address. -/
def cString (memory : List UInt8) (address : Nat) : List UInt8 :=
  (memory.drop address).takeWhile (· ≠ 0)

/-- `strlen`, which leaves the memory where there is no NUL. -/
def strlen (memory : List UInt8) : Except Exn Nat :=
  if (0 : UInt8) ∈ memory then .ok (memory.idxOf 0) else .error .undefinedBehaviour

/-- `static_cast<int>` of a `size_t` -/
def asInt (value : Nat) : Int := (value : Int).bmod (2 ^ 32)

structure Cursor where
  memory : List UInt8
  /-- `ret`, with pointers as addresses in the memory. -/
  ret : List Nat
  colIdx : Nat
  start : Nat
  currColIdx : Nat

/-- The loop of `tokenize_line` from index `i`, with the rounds left. -/
def tokenizeLoop (delim : UInt8) (colIndices : List Int) : Nat → Nat → Cursor → Except Exn Cursor
  | 0, _, cursor => .ok cursor
  | rounds + 1, i, cursor =>
      match cursor.memory[i]? with
      | none => .error .undefinedBehaviour
      | some byte =>
          if byte = delim then
            let cursor := { cursor with memory := cursor.memory.set i 0 }
            match colIndices[cursor.colIdx]? with
            | none => .error .undefinedBehaviour
            | some wanted =>
                let next := { cursor with start := i + 1, currColIdx := cursor.currColIdx + 1 }
                if wanted = asInt cursor.currColIdx then
                  let ret := cursor.ret ++ [cursor.start]
                  let colIdx := cursor.colIdx + 1
                  if colIdx = colIndices.length then .ok { cursor with ret, colIdx }
                  else tokenizeLoop delim colIndices rounds (i + 1) { next with ret, colIdx }
                else tokenizeLoop delim colIndices rounds (i + 1) next
          else tokenizeLoop delim colIndices rounds (i + 1) cursor

/-- `tokenize_line` on the line at the start of the memory: the memory it leaves and the
addresses of the fields. -/
def tokenizeLine (memory : List UInt8) (delim : UInt8) (colIndices : List Int) :
    Except Exn (List UInt8 × List Nat) := do
  let size ← strlen memory
  let memory := memory.set size delim
  let cursor ← tokenizeLoop delim colIndices (size + 1) 0 ⟨memory, [], 0, 0, 0⟩
  .ok (cursor.memory, cursor.ret)

/-! ## The fields asked for -/

/-- The fields at the increasing indices, counted from `curr`. -/
def project (curr : Nat) : List Int → List (List UInt8) → List (List UInt8)
  | _, [] => []
  | [], _ :: _ => []
  | wanted :: others, field :: fields =>
      if wanted = (curr : Int) then field :: project (curr + 1) others fields
      else project (curr + 1) (wanted :: others) fields

/-- What a list of indices still to be found has to satisfy. -/
structure Pending (curr : Nat) (indices : List Int) : Prop where
  increasing : indices.Pairwise (· < ·)
  ahead : ∀ index ∈ indices, (curr : Int) ≤ index
  small : ∀ index ∈ indices, index < 2 ^ 31

variable {curr : Nat} {indices : List Int} {wanted : Int} {fields : List (List UInt8)}

theorem Pending.skip (pending : Pending curr (wanted :: indices)) (other : wanted ≠ (curr : Int)) :
    Pending (curr + 1) (wanted :: indices) where
  increasing := pending.increasing
  ahead := by
    have first := pending.ahead wanted (List.mem_cons_self ..)
    intro index member
    rcases List.mem_cons.mp member with rfl | later
    · omega
    · have after := (List.pairwise_cons.mp pending.increasing).1 index later
      omega
  small := pending.small

theorem Pending.found (pending : Pending curr ((curr : Int) :: indices)) :
    Pending (curr + 1) indices where
  increasing := (List.pairwise_cons.mp pending.increasing).2
  ahead := by
    intro index member
    have after := (List.pairwise_cons.mp pending.increasing).1 index member
    omega
  small := fun index member => pending.small index (List.mem_cons_of_mem _ member)

/-- The cast of the column number is the number, wherever an index is still ahead. -/
theorem Pending.asInt_eq (pending : Pending curr (wanted :: indices)) : asInt curr = (curr : Int) := by
  have ahead := pending.ahead wanted (List.mem_cons_self ..)
  have small := pending.small wanted (List.mem_cons_self ..)
  unfold asInt
  rw [Int.bmod_eq_of_le] <;> omega

theorem project_eq_filterMap (pending : Pending curr indices) :
    project curr indices fields =
      indices.filterMap fun index => fields[(index - (curr : Int)).toNat]? := by
  induction fields generalizing curr indices with
  | nil =>
      rw [project]
      simp
  | cons field fields ih =>
      cases indices with
      | nil => rfl
      | cons wanted others =>
          have later : ∀ index : Int, ((curr + 1 : Nat) : Int) ≤ index →
              (field :: fields)[(index - curr).toNat]? =
                fields[(index - ((curr + 1 : Nat) : Int)).toNat]? := by
            intro index ahead
            have place : (index - (curr : Int)).toNat =
                (index - ((curr + 1 : Nat) : Int)).toNat + 1 := by omega
            rw [place, List.getElem?_cons_succ]
          by_cases here : wanted = (curr : Int)
          · subst here
            rw [project, if_pos rfl, ih pending.found, List.filterMap_cons]
            simp only [sub_self, Int.toNat_zero, List.getElem?_cons_zero]
            refine congrArg _ (List.filterMap_congr fun index member => ?_)
            exact (later index (pending.found.ahead index member)).symm
          · rw [project, if_neg here, ih (pending.skip here)]
            refine List.filterMap_congr fun index member => ?_
            exact (later index ((pending.skip here).ahead index member)).symm

/-- A field that is not the last one leads on to the others. -/
theorem splitOn_append_delim {delim : UInt8} {front back : List UInt8} (clean : delim ∉ front) :
    (front ++ delim :: back).splitOn delim = front :: back.splitOn delim :=
  List.splitOn_append_cons_self_of_not_mem clean back

/-! ## The loop -/

/-- The address points to a field that ends inside the memory done. -/
def Ends (done : List UInt8) (address : Nat) (field : List UInt8) : Prop :=
  0 ∉ field ∧ ∃ after, done.drop address = field ++ 0 :: after

theorem Ends.append {done : List UInt8} {address : Nat} {field : List UInt8}
    (ends : Ends done address field) (more : List UInt8) : Ends (done ++ more) address field := by
  obtain ⟨clean, after, held⟩ := ends
  refine ⟨clean, after ++ more, ?_⟩
  have inside : address ≤ done.length := by
    by_contra beyond
    rw [List.drop_eq_nil_of_le (by omega)] at held
    simp at held
  rw [List.drop_append_of_le_length inside, held]
  simp

theorem Ends.cString {done : List UInt8} {address : Nat} {field : List UInt8}
    (ends : Ends done address field) (more : List UInt8) :
    cString (done ++ more) address = field := by
  obtain ⟨clean, after, held⟩ := ends.append more
  unfold Csv.cString
  rw [held, List.takeWhile_append_of_pos]
  · simp
  · intro byte member
    have nonzero : byte ≠ 0 := fun zero => clean (zero ▸ member)
    simpa using nonzero

theorem getElem?_here (done : List UInt8) (byte : UInt8) (tail : List UInt8) :
    (done ++ byte :: tail)[done.length]? = some byte := by
  rw [List.getElem?_append_right (Nat.le_refl _), Nat.sub_self]
  rfl

theorem set_here (done : List UInt8) (old new : UInt8) (tail : List UInt8) :
    (done ++ old :: tail).set done.length new = done ++ new :: tail := by
  rw [List.set_append_right _ _ (Nat.le_refl _), Nat.sub_self]
  rfl

variable {delim : UInt8} {colIndices : List Int} {done part beyond tail : List UInt8}
  {ret : List Nat} {colIdx start rounds : Nat} {found : List (List UInt8)}

theorem tokenizeLoop_byte {byte : UInt8} (other : byte ≠ delim) :
    tokenizeLoop delim colIndices (rounds + 1) done.length
        ⟨done ++ byte :: tail, ret, colIdx, start, curr⟩ =
      tokenizeLoop delim colIndices rounds (done ++ [byte]).length
        ⟨(done ++ [byte]) ++ tail, ret, colIdx, start, curr⟩ := by
  rw [tokenizeLoop]
  simp only [getElem?_here, if_neg other, List.length_append, List.length_singleton,
    List.append_assoc, List.singleton_append]

theorem tokenizeLoop_delim {others : List Int} (asked : colIndices.drop colIdx = wanted :: others) :
    tokenizeLoop delim colIndices (rounds + 1) done.length
        ⟨done ++ delim :: tail, ret, colIdx, start, curr⟩ =
      if wanted = asInt curr then
        if others = [] then .ok ⟨(done ++ [0]) ++ tail, ret ++ [start], colIdx + 1, start, curr⟩
        else tokenizeLoop delim colIndices rounds (done ++ [0]).length
          ⟨(done ++ [0]) ++ tail, ret ++ [start], colIdx + 1, (done ++ [0]).length, curr + 1⟩
      else tokenizeLoop delim colIndices rounds (done ++ [0]).length
        ⟨(done ++ [0]) ++ tail, ret, colIdx, (done ++ [0]).length, curr + 1⟩ := by
  have index : colIndices[colIdx]? = some wanted := by
    have first := congrArg List.head? asked
    rwa [List.head?_drop] at first
  have last : colIdx + 1 = colIndices.length ↔ others = [] := by
    have count := congrArg List.length asked
    rw [List.length_drop, List.length_cons] at count
    rw [← List.length_eq_zero_iff]
    omega
  rw [tokenizeLoop]
  simp only [getElem?_here, if_true, set_here, index, last, List.length_append,
    List.length_singleton, List.append_assoc, List.singleton_append]

theorem Ends.closed (held : done.drop start = part) (within : start ≤ done.length)
    (clean : 0 ∉ part) : Ends (done ++ [0]) start part := by
  refine ⟨clean, [], ?_⟩
  rw [List.drop_append_of_le_length within, held]

theorem map_cString (ends : List.Forall₂ (Ends done) ret found) (more : List UInt8) :
    ret.map (cString (done ++ more)) = found := by
  induction ends with
  | nil => rfl
  | cons first _ ih => rw [List.map_cons, first.cString more, ih]

theorem Ends.all_append (ends : List.Forall₂ (Ends done) ret found) (more : List UInt8) :
    List.Forall₂ (Ends (done ++ more)) ret found :=
  ends.imp fun _ _ each => each.append more

theorem Ends.all_snoc (ends : List.Forall₂ (Ends done) ret found)
    (closed : Ends (done ++ [0]) start part) :
    List.Forall₂ (Ends (done ++ [0])) (ret ++ [start]) (found ++ [part]) :=
  List.rel_append (Ends.all_append ends [0]) (.cons closed .nil)

/-- What is asked for once no fields are left. -/
theorem project_nil_fields : project curr indices [] = [] := by
  rw [project]

theorem project_nil_indices : project curr [] fields = [] := by
  cases fields <;> rw [project]

/-- The loop over what is left of a line yields the fields asked for there: the one under
way, whose bytes so far are `part`, and those that follow. -/
theorem tokenizeLoop_ok (left : List UInt8) (clean : 0 ∉ left)
    (held : done.drop start = part) (within : start ≤ done.length)
    (partClean : 0 ∉ part ∧ delim ∉ part) (ends : List.Forall₂ (Ends done) ret found)
    (pending : Pending curr (colIndices.drop colIdx)) (more : colIndices.drop colIdx ≠ []) :
    ∃ cursor changed, tokenizeLoop delim colIndices (left.length + 1) done.length
        ⟨done ++ left ++ delim :: beyond, ret, colIdx, start, curr⟩ = .ok cursor ∧
      cursor.memory = done ++ changed ++ beyond ∧ changed.length = left.length + 1 ∧
      List.Forall₂ (Ends cursor.memory) cursor.ret
        (found ++ project curr (colIndices.drop colIdx) ((part ++ left).splitOn delim)) := by
  induction left generalizing done part ret colIdx start curr found with
  | nil =>
      obtain ⟨wanted, others, asked⟩ := List.exists_cons_of_ne_nil more
      have closed := Ends.closed held within partClean.1
      rw [asked] at pending ⊢
      rw [List.append_nil, List.append_nil, List.splitOn_eq_singleton partClean.2,
        List.length_nil, Nat.zero_add, tokenizeLoop_delim asked, pending.asInt_eq]
      by_cases here : wanted = (curr : Int)
      · have both := Ends.all_append (Ends.all_snoc ends closed) beyond
        rw [if_pos here, project, if_pos here, project_nil_fields]
        by_cases last : others = []
        · rw [if_pos last]
          exact ⟨_, [0], rfl, rfl, rfl, both⟩
        · rw [if_neg last]
          exact ⟨_, [0], rfl, rfl, rfl, both⟩
      · rw [if_neg here, project, if_neg here, project_nil_fields, List.append_nil]
        exact ⟨_, [0], rfl, rfl, rfl, Ends.all_append (Ends.all_append ends [0]) beyond⟩
  | cons byte left ih =>
      rw [List.mem_cons, not_or] at clean
      obtain ⟨notNul, cleanLeft⟩ := clean
      have layout : done ++ byte :: left ++ delim :: beyond =
          done ++ byte :: (left ++ delim :: beyond) := by simp
      have begun : ∀ {next : UInt8}, (done ++ [next]).drop (done ++ [next]).length = [] :=
        List.drop_length
      by_cases same : byte = delim
      · subst same
        obtain ⟨wanted, others, asked⟩ := List.exists_cons_of_ne_nil more
        have closed := Ends.closed held within partClean.1
        rw [asked] at pending ⊢
        rw [layout, List.length_cons, tokenizeLoop_delim asked, pending.asInt_eq,
          splitOn_append_delim partClean.2]
        by_cases here : wanted = (curr : Int)
        · have both := Ends.all_snoc ends closed
          have rest : colIndices.drop (colIdx + 1) = others := by
            rw [← List.drop_drop, asked]
            rfl
          rw [if_pos here, project, if_pos here]
          by_cases last : others = []
          · rw [if_pos last, last, project_nil_indices]
            refine ⟨_, 0 :: left ++ [byte], rfl, ?_, ?_, Ends.all_append both _⟩
            · simp
            · simp
          · rw [if_neg last]
            subst here
            obtain ⟨cursor, changed, run, memory, length, fields⟩ :=
              ih cleanLeft begun (Nat.le_refl _) ⟨List.not_mem_nil, List.not_mem_nil⟩ both
                (rest.symm ▸ pending.found) (rest.symm ▸ last)
            rw [← List.append_assoc, run]
            refine ⟨cursor, 0 :: changed, rfl, ?_, ?_, ?_⟩
            · rw [memory]
              simp
            · rw [List.length_cons, length]
            · rw [rest] at fields
              simpa using fields
        · rw [if_neg here, project, if_neg here]
          obtain ⟨cursor, changed, run, memory, length, fields⟩ :=
            ih cleanLeft begun (Nat.le_refl _) ⟨List.not_mem_nil, List.not_mem_nil⟩
              (Ends.all_append ends [0]) (asked.symm ▸ pending.skip here) more
          rw [← List.append_assoc, run]
          refine ⟨cursor, 0 :: changed, rfl, ?_, ?_, ?_⟩
          · rw [memory]
            simp
          · rw [List.length_cons, length]
          · rw [asked, List.nil_append] at fields
            exact fields
      · have longer : (done ++ [byte]).drop start = part ++ [byte] := by
          rw [List.drop_append_of_le_length within, held]
        have fits : start ≤ (done ++ [byte]).length := by
          rw [List.length_append]
          omega
        have stillClean : 0 ∉ part ++ [byte] ∧ delim ∉ part ++ [byte] := by
          simp only [List.mem_append, List.mem_singleton, not_or]
          exact ⟨⟨partClean.1, notNul⟩, partClean.2, fun eq => same eq.symm⟩
        obtain ⟨cursor, changed, run, memory, length, fields⟩ :=
          ih cleanLeft longer fits stillClean (Ends.all_append ends [byte]) pending more
        rw [layout, List.length_cons, tokenizeLoop_byte same, ← List.append_assoc, run]
        refine ⟨cursor, byte :: changed, rfl, ?_, ?_, ?_⟩
        · rw [memory]
          simp
        · rw [List.length_cons, length]
        · simpa using fields

theorem strlen_line {line : List UInt8} (clean : 0 ∉ line) :
    strlen (line ++ 0 :: beyond) = .ok line.length := by
  have member : (0 : UInt8) ∈ line ++ 0 :: beyond := by simp
  rw [strlen, if_pos member, List.idxOf_append_of_notMem clean]
  simp

theorem project_all (increasing : colIndices.Pairwise (· < ·))
    (range : ∀ index ∈ colIndices, 0 ≤ index ∧ index < 2 ^ 31) :
    project 0 colIndices fields = colIndices.filterMap fun index => fields[index.toNat]? := by
  have pending : Pending 0 colIndices :=
    ⟨increasing, fun index member => (range index member).1, fun index member => (range index member).2⟩
  rw [project_eq_filterMap pending]
  simp

/-- The pointers returned are to the fields asked for, each ended inside the line's memory. -/
theorem tokenizeLine_ends (line beyond : List UInt8) (delim : UInt8) (clean : 0 ∉ line)
    (nonempty : colIndices ≠ []) (increasing : colIndices.Pairwise (· < ·))
    (range : ∀ index ∈ colIndices, 0 ≤ index ∧ index < 2 ^ 31) :
    ∃ changed ret,
      tokenizeLine (line ++ 0 :: beyond) delim colIndices = .ok (changed ++ beyond, ret) ∧
      changed.length = line.length + 1 ∧
      List.Forall₂ (Ends (changed ++ beyond)) ret
        (colIndices.filterMap fun index => (line.splitOn delim)[index.toNat]?) := by
  have pending : Pending 0 colIndices :=
    ⟨increasing, fun index member => (range index member).1, fun index member => (range index member).2⟩
  have loop : ∃ cursor changed,
      tokenizeLoop delim colIndices (line.length + 1) ([] : List UInt8).length
          ⟨[] ++ line ++ delim :: beyond, [], 0, 0, 0⟩ = .ok cursor ∧
        cursor.memory = [] ++ changed ++ beyond ∧ changed.length = line.length + 1 ∧
        List.Forall₂ (Ends cursor.memory) cursor.ret
          ([] ++ project 0 (colIndices.drop 0) (([] ++ line).splitOn delim)) :=
    tokenizeLoop_ok line clean rfl (Nat.le_refl _) ⟨List.not_mem_nil, List.not_mem_nil⟩ .nil pending
      nonempty
  obtain ⟨cursor, changed, run, memory, length, ends⟩ := loop
  simp only [List.nil_append, List.length_nil, List.drop_zero] at run memory ends
  rw [project_all increasing range, memory] at ends
  refine ⟨changed, cursor.ret, ?_, length, ends⟩
  unfold tokenizeLine
  rw [strlen_line clean]
  simp only [bind, Except.bind, set_here, run, memory]

/-- The fields of a line at the indices that it has, each with its bytes; what lies beyond
the line is left alone. -/
theorem tokenizeLine_projects (line beyond : List UInt8) (delim : UInt8) (colIndices : List Int)
    (clean : 0 ∉ line) (nonempty : colIndices ≠ [])
    (increasing : colIndices.Pairwise (· < ·))
    (range : ∀ index ∈ colIndices, 0 ≤ index ∧ index < 2 ^ 31) :
    ∃ changed ret,
      tokenizeLine (line ++ 0 :: beyond) delim colIndices = .ok (changed ++ beyond, ret) ∧
      changed.length = line.length + 1 ∧
      ret.map (cString (changed ++ beyond)) =
        colIndices.filterMap (fun index => (line.splitOn delim)[index.toNat]?) ∧
      (ret.length = colIndices.length ↔
        ∀ index ∈ colIndices, index.toNat < (line.splitOn delim).length) := by
  obtain ⟨changed, ret, run, length, ends⟩ :=
    tokenizeLine_ends line beyond delim clean nonempty increasing range
  have asked := map_cString ends []
  rw [List.append_nil] at asked
  refine ⟨changed, ret, run, length, asked, ?_⟩
  have count := congrArg List.length asked
  rw [List.length_map] at count
  rw [count, List.filterMap_length_eq_length]
  simp

/-- The line `7,,x` with the columns 1, 2 and 5 asked for. -/
theorem tokenizeLine_projects_short_line :
    ∃ changed ret,
      tokenizeLine ([55, 44, 44, 120] ++ 0 :: [10]) 44 [1, 2, 5] = .ok (changed ++ [10], ret) ∧
      changed.length = [55, 44, 44, 120].length + 1 ∧
      ret.map (cString (changed ++ [10])) =
        [1, 2, 5].filterMap (fun index : Int =>
          (([55, 44, 44, 120] : List UInt8).splitOn 44)[index.toNat]?) ∧
      (ret.length = [1, 2, 5].length ↔
        ∀ index ∈ ([1, 2, 5] : List Int),
          index.toNat < (([55, 44, 44, 120] : List UInt8).splitOn 44).length) :=
  tokenizeLine_projects [55, 44, 44, 120] [10] 44 [1, 2, 5] (by decide) (by decide) (by decide)
    (by decide)

end Gambit.Csv
