import Gambit.Lib.Blocks
import Gambit.Lib.Raising
import Gambit.Csv.Lines

/-!
# Reading lines through a growing buffer

`read_line` looks for LF in the bytes read and not yet returned, and otherwise
moves them to the front of its buffer, grows it and reads on.  An access
outside the allocated block, and a loop that does not end, are
`undefinedBehaviour`.
-/

set_option autoImplicit false

namespace Gambit.Csv

open Blocks Raising

inductive CsvError where
  /-- `std::runtime_error`, raised by `error(...)`. -/
  | runtime (message : String)
  /-- `std::invalid_argument` -/
  | invalidArgument (message : String)
  | undefinedBehaviour
deriving DecidableEq

/-- What the program does not control: the contents of memory it did not write, and how many
bytes a read returns. -/
structure Environment where
  fresh : Nat → UInt8
  sizes : Nat → Nat

def bufferSize : Nat := 64 * 1024

def maxLineSize : Nat := 16 * 1024 * 1024

structure Reader where
  maximum : Nat
  consumed : Nat
  /-- The bytes not read yet. -/
  left : List UInt8
  reads : Nat
  withinMaximum : consumed ≤ maximum

def Reader.openAt (maximum : Nat) (input : List UInt8) : Reader :=
  ⟨maximum, 0, input, 0, Nat.zero_le _⟩

/-- `read_bytes`: at least one byte and at most `length` of them, or none at the end. -/
def Reader.readBytes (environment : Environment) (reader : Reader) (length : Nat) : List UInt8 :=
  reader.left.take (min (max 1 (environment.sizes reader.reads)) length)

/-- One byte more than the budget leaves, where that is less than `length`. -/
def Reader.request (reader : Reader) (length : Nat) : Nat :=
  let remaining := reader.maximum - reader.consumed
  if remaining < length then remaining + 1 else length

def Reader.fread (environment : Environment) (reader : Reader) (length : Nat) :
    Except CsvError (List UInt8 × Reader) :=
  let remaining := reader.maximum - reader.consumed
  let bytes := reader.readBytes environment (reader.request length)
  if fits : bytes.length ≤ remaining then
    .ok (bytes,
      { reader with
        consumed := reader.consumed + bytes.length
        left := reader.left.drop bytes.length
        reads := reader.reads + 1
        withinMaximum := by
          have within := reader.withinMaximum
          omega })
  else .error (.runtime "CSV input byte limit exceeded: ")

/-- `*buf`, `*buf_size` and `*begin_idx` once the buffer is allocated. -/
structure LineBuffer where
  block : List UInt8
  bufSize : Nat
  beginIdx : Nat

def inBlock {α : Type} : Option α → Except CsvError α
  | some a => .ok a
  | none => .error .undefinedBehaviour

def getIndex (block : List UInt8) (start : Nat) (c : UInt8) :
    Nat → Nat → Except CsvError (Option Nat)
  | 0, _ => .ok none
  | left + 1, i => do
      let byte ← inBlock (load block (start + i))
      if byte = c then .ok (some i) else getIndex block start c left (i + 1)

inductive Round where
  | line (address size : Nat) (buffer : LineBuffer) (reader : Reader)
  | endOfInput (buffer : LineBuffer) (reader : Reader)
  | again (buffer : LineBuffer) (reader : Reader)

/-- `line_size` without a CR before the LF. -/
def trimmedSize (buffer : LineBuffer) (lineSize : Nat) : Except CsvError Nat :=
  if lineSize > 0 then do
    let last ← inBlock (load buffer.block (buffer.beginIdx + lineSize - 1))
    .ok (if last = 13 then lineSize - 1 else lineSize)
  else .ok lineSize

/-- The branch taken when LF is at `lineSize` from the beginning of the pending bytes. -/
def returnLine (buffer : LineBuffer) (reader : Reader) (lineSize : Nat) :
    Except CsvError Round := do
  let nextLineIdx := buffer.beginIdx + lineSize + 1
  let lineSize ← trimmedSize buffer lineSize
  let block ← inBlock (store buffer.block (buffer.beginIdx + lineSize) 0)
  .ok (.line buffer.beginIdx lineSize ⟨block, buffer.bufSize, nextLineIdx⟩ reader)

/-- The pending bytes at the beginning of the block. -/
def compacted (buffer : LineBuffer) (available : Nat) : Except CsvError (List UInt8) :=
  if buffer.beginIdx > 0 ∧ available > 0 then
    inBlock (moveDown buffer.block buffer.beginIdx available)
  else .ok buffer.block

/-- The branch taken when there is no LF among the pending bytes. -/
def refill (environment : Environment) (buffer : LineBuffer) (reader : Reader)
    (available : Nat) : Except CsvError Round := do
  let block ← compacted buffer available
  if available ≥ maxLineSize then
    .error (.runtime " contains a row larger than the 16 MiB input limit")
  let readSize := min bufferSize (maxLineSize - available)
  let block := resize environment.fresh block (available + readSize + 1)
  let (bytes, reader) ← reader.fread environment readSize
  let block ← inBlock (writeAt block available readSize bytes)
  if bytes.length = 0 then
    if available = 0 then .ok (.endOfInput ⟨block, available, 0⟩ reader)
    else
      let block ← inBlock (store block available 0)
      .ok (.line 0 available ⟨block, available, available⟩ reader)
  else .ok (.again ⟨block, available + bytes.length, 0⟩ reader)

def readRound (environment : Environment) (buffer : LineBuffer) (reader : Reader) :
    Except CsvError Round := do
  let available := buffer.bufSize - buffer.beginIdx
  let newlineIdx ← getIndex buffer.block buffer.beginIdx 10 available 0
  match newlineIdx with
  | some lineSize => returnLine buffer reader lineSize
  | none => refill environment buffer reader available

/-- The loop of `read_line`, which every round but the last reads at least one byte in. -/
def readLoop (environment : Environment) :
    Nat → LineBuffer → Reader → Except CsvError Round
  | 0, _, _ => .error .undefinedBehaviour
  | rounds + 1, buffer, reader => do
      let round ← readRound environment buffer reader
      match round with
      | .again buffer reader => readLoop environment rounds buffer reader
      | done => .ok done

/-- `read_line`; `none` is the null pointer `*buf` starts as. -/
def readLine (environment : Environment) (buffer : Option LineBuffer) (reader : Reader) :
    Except CsvError Round :=
  let buffer := buffer.getD ⟨resize environment.fresh [] bufferSize, 0, 0⟩
  readLoop environment (reader.left.length + 1) buffer reader

/-- Calls `read_line` until the end of the input; the bytes of each line. -/
def readLines (environment : Environment) :
    Nat → Option LineBuffer → Reader → Except CsvError (List (List UInt8))
  | 0, _, _ => .error .undefinedBehaviour
  | calls + 1, buffer, reader => do
      let round ← readLine environment buffer reader
      match round with
      | .line address size buffer reader => do
          let others ← readLines environment calls (some buffer) reader
          .ok ((buffer.block.drop address).take size :: others)
      | _ => .ok []

/-! ## The pending bytes -/

/-- The bytes read and not yet returned, which never outgrow the row limit. -/
structure LineBuffer.Holds (buffer : LineBuffer) (pending : List UInt8) : Prop where
  layout : ∃ front back, buffer.block = front ++ pending ++ back ∧
    buffer.beginIdx = front.length ∧ buffer.bufSize = front.length + pending.length
  bounded : pending.length ≤ maxLineSize

/-- A line stands at an address with its NUL; whatever is written over both leaves the pending
bytes alone. -/
def LineBuffer.Returns (buffer : LineBuffer) (address : Nat) (line pending : List UInt8) : Prop :=
  ∃ front back, buffer.block = front ++ (line ++ [0]) ++ back ∧ address = front.length ∧
    ∀ changed : List UInt8, changed.length = line.length + 1 →
      LineBuffer.Holds { buffer with block := front ++ changed ++ back } pending

variable {environment : Environment} {buffer : LineBuffer} {reader : Reader}
  {pending segment line rest bytes : List UInt8} {block front part back : List UInt8} {c : UInt8}
  {length : Nat}

theorem LineBuffer.Returns.holds {address : Nat} (returned : buffer.Returns address line pending) :
    buffer.Holds pending := by
  obtain ⟨front, back, layout, _, frame⟩ := returned
  have same := frame (line ++ [0]) (by simp)
  rwa [← layout] at same

theorem LineBuffer.Returns.line_bytes {address : Nat}
    (returned : buffer.Returns address line pending) :
    (buffer.block.drop address).take line.length = line := by
  obtain ⟨front, back, layout, start, _⟩ := returned
  rw [layout, start, List.append_assoc, List.append_assoc, List.drop_left, List.take_left]

theorem getIndex_absent (front back : List UInt8) (clean : c ∉ part) :
    ∀ done, getIndex (front ++ (done ++ part) ++ back) front.length c part.length done.length =
      .ok none := by
  induction part with
  | nil => exact fun _ => rfl
  | cons byte part ih =>
      intro done
      rw [List.mem_cons, not_or] at clean
      have here : load (front ++ (done ++ byte :: part) ++ back) (front.length + done.length) =
          some byte := by
        rw [load_part (by simp), List.getElem?_append_right (Nat.le_refl _), Nat.sub_self]
        rfl
      have later := ih clean.2 (done ++ [byte])
      rw [List.length_append, List.append_assoc] at later
      rw [List.length_cons, getIndex, here]
      simpa [inBlock, bind, Except.bind, Ne.symm clean.1] using later

theorem getIndex_found (front back : List UInt8) (clean : c ∉ part) (more : List UInt8) :
    ∀ done, getIndex (front ++ (done ++ part ++ c :: more) ++ back) front.length c
      (part ++ c :: more).length done.length = .ok (some (done ++ part).length) := by
  induction part with
  | nil =>
      intro done
      have here : load (front ++ (done ++ [] ++ c :: more) ++ back) (front.length + done.length) =
          some c := by
        rw [load_part (by simp), List.append_nil, List.getElem?_append_right (Nat.le_refl _),
          Nat.sub_self]
        rfl
      rw [List.nil_append, List.length_cons, getIndex, here]
      simp [inBlock, bind, Except.bind]
  | cons byte part ih =>
      intro done
      rw [List.mem_cons, not_or] at clean
      have here : load (front ++ (done ++ byte :: part ++ c :: more) ++ back)
          (front.length + done.length) = some byte := by
        rw [load_part (by simp), List.append_assoc, List.getElem?_append_right (Nat.le_refl _),
          Nat.sub_self]
        rfl
      have later := ih clean.2 (done ++ [byte])
      rw [List.cons_append, List.length_cons, getIndex, here]
      simpa [inBlock, bind, Except.bind, Ne.symm clean.1] using later

/-- The NUL takes the place of the LF or of the CR before it. -/
theorem dropCr_split (segment : List UInt8) :
    ∃ old gap, segment ++ [10] = dropCr segment ++ old :: gap := by
  rcases List.eq_nil_or_concat segment with rfl | ⟨init, last, rfl⟩
  · exact ⟨10, [], rfl⟩
  · by_cases cr : last = 13
    · exact ⟨13, [10], by simp [dropCr, cr]⟩
    · exact ⟨10, [], by simp [dropCr, cr]⟩

theorem trimmedSize_ok (layout : buffer.block = front ++ (segment ++ 10 :: rest) ++ back)
    (start : buffer.beginIdx = front.length) :
    trimmedSize buffer segment.length = .ok (dropCr segment).length := by
  rcases List.eq_nil_or_concat segment with rfl | ⟨init, last, rfl⟩
  · simp [trimmedSize, dropCr]
  · rw [List.concat_eq_append] at *
    have place : buffer.beginIdx + (init ++ [last]).length - 1 = front.length + init.length := by
      rw [start, List.length_append, List.length_singleton]
      omega
    have here : load buffer.block (buffer.beginIdx + (init ++ [last]).length - 1) = some last := by
      rw [layout, place, load_part (by simp)]
      simp
    rw [trimmedSize, if_pos (by simp), here]
    by_cases cr : last = 13
    · simp [inBlock, bind, Except.bind, dropCr, cr]
    · simp [inBlock, bind, Except.bind, dropCr, cr]

theorem returnLine_ok (reader : Reader) (layout : buffer.block = front ++ (segment ++ 10 :: rest) ++ back)
    (start : buffer.beginIdx = front.length)
    (size : buffer.bufSize = front.length + (segment ++ 10 :: rest).length)
    (bounded : (segment ++ 10 :: rest).length ≤ maxLineSize) :
    ∃ buffer', returnLine buffer reader segment.length =
        .ok (.line front.length (dropCr segment).length buffer' reader) ∧
      buffer'.Returns front.length (dropCr segment) rest := by
  obtain ⟨old, gap, split⟩ := dropCr_split segment
  have together := congrArg List.length split
  simp only [List.length_append, List.length_cons, List.length_nil] at together bounded size
  have relaid : buffer.block = front ++ dropCr segment ++ old :: (gap ++ rest ++ back) := by
    have joined : segment ++ 10 :: rest = dropCr segment ++ old :: gap ++ rest := by
      rw [← split]
      simp
    rw [layout, joined]
    simp
  have stored : store buffer.block (front.length + (dropCr segment).length) 0 =
      some (front ++ dropCr segment ++ 0 :: (gap ++ rest ++ back)) := by
    rw [relaid, ← List.length_append, store_here]
  refine ⟨⟨front ++ dropCr segment ++ 0 :: (gap ++ rest ++ back), buffer.bufSize,
    buffer.beginIdx + segment.length + 1⟩, ?_, front, gap ++ rest ++ back, by simp, rfl, ?_⟩
  · rw [returnLine, trimmedSize_ok layout start]
    simp only [bind, Except.bind, start, stored, inBlock]
  · intro changed length
    refine ⟨⟨front ++ changed ++ gap, back, by simp, ?_, ?_⟩, by omega⟩
    · simp only [start, List.length_append]
      omega
    · simp only [size, List.length_append]
      omega

/-! ## One round -/

theorem fread_yields (environment : Environment) {limit : Nat} (positive : 0 < length) (maximum : reader.maximum = limit) :
    Yields (fun outcome => reader.left = outcome.1 ++ outcome.2.left ∧
        outcome.2.maximum = limit ∧ outcome.1.length ≤ length ∧
        outcome.2.consumed + outcome.2.left.length = reader.consumed + reader.left.length ∧
        (outcome.1 = [] → reader.left = []))
      (fun e => e = .runtime "CSV input byte limit exceeded: " ∧
        limit < reader.consumed + reader.left.length)
      (reader.fread environment length) := by
  have within := reader.withinMaximum
  have asked : 0 < reader.request length ∧ reader.request length ≤ length := by
    simp only [Reader.request]
    split <;> omega
  unfold Reader.fread
  have part : ∃ bytes, reader.readBytes environment (reader.request length) = bytes ∧
      reader.left = bytes ++ reader.left.drop bytes.length ∧ bytes.length ≤ length ∧
      (bytes = [] → reader.left = []) := by
    unfold Reader.readBytes
    generalize sizeIs : min _ (reader.request length) = size
    refine ⟨_, rfl, ?_, ?_, ?_⟩
    · exact List.prefix_append_drop (List.take_prefix _ _)
    · rw [List.length_take]
      omega
    · intro none
      have zero := congrArg List.length none
      rw [List.length_take, List.length_nil] at zero
      exact List.length_eq_zero_iff.1 (by omega)
  obtain ⟨bytes, same, split, short, atEnd⟩ := part
  have count := congrArg List.length split
  rw [List.length_append] at count
  simp only [same]
  by_cases fits : bytes.length ≤ reader.maximum - reader.consumed
  · rw [dif_pos fits]
    refine ⟨split, maximum, short, ?_, atEnd⟩
    change reader.consumed + bytes.length + (reader.left.drop bytes.length).length = _
    omega
  · rw [dif_neg fits]
    exact ⟨rfl, by omega⟩

/-- What one round makes of the pending bytes and the input left. -/
def Round.Follows (limit total : Nat) (pending left : List UInt8) : Round → Prop
  | .line address size buffer reader =>
      ∃ segment line rest, FirstLine (pending ++ left) segment line (rest ++ reader.left) ∧
        segment.length < maxLineSize ∧ size = line.length ∧ buffer.Returns address line rest ∧
        reader.maximum = limit ∧ reader.consumed + reader.left.length = total
  | .endOfInput _ reader =>
      pending ++ left = [] ∧ reader.maximum = limit ∧ reader.consumed = total
  | .again buffer reader =>
      ∃ now, now ++ reader.left = pending ++ left ∧ buffer.Holds now ∧
        reader.left.length < left.length ∧
        reader.maximum = limit ∧ reader.consumed + reader.left.length = total

/-- Why a round may raise. -/
def Refuses (limit total : Nat) (text : List UInt8) (e : CsvError) : Prop :=
  (e = .runtime " contains a row larger than the 16 MiB input limit" ∧
      ∃ segment line rest, FirstLine text segment line rest ∧ maxLineSize ≤ segment.length) ∨
    (e = .runtime "CSV input byte limit exceeded: " ∧ limit < total)

theorem maxLineSize_pos : 0 < maxLineSize := by decide

theorem bufferSize_pos : 0 < bufferSize := by decide

theorem Refuses.reason {limit total : Nat} {text : List UInt8} {e : CsvError}
    (refused : Refuses limit total text e) : (∃ message, e = .runtime message) ∧
      (limit < total ∨ ¬ ∀ segment ∈ segments text, segment.length < maxLineSize) := by
  rcases refused with ⟨message, segment, line, rest, first, long⟩ | ⟨message, beyond⟩
  · refine ⟨⟨_, message⟩, Or.inr fun all => ?_⟩
    exact absurd ((first.segments_short maxLineSize_pos).1 all).1 (Nat.not_lt.2 long)
  · exact ⟨⟨_, message⟩, Or.inl beyond⟩

/-- The first segment is at least as long as the bytes known to be without LF. -/
theorem FirstLine.clean_le {clean : List UInt8} (noLf : 10 ∉ clean) {more : List UInt8}
    (first : FirstLine (clean ++ more) segment line rest) : clean.length ≤ segment.length := by
  generalize textIs : clean ++ more = text at first
  cases first with
  | ended _ _ _ =>
      by_contra shorter
      have place := congrArg (·[segment.length]?) textIs
      simp only [List.getElem?_append_right (Nat.le_refl _), Nat.sub_self,
        List.getElem?_cons_zero] at place
      rw [List.getElem?_append_left (by omega)] at place
      exact noLf (List.mem_of_getElem? place)
  | last _ _ _ =>
      rw [← textIs, List.length_append]
      omega

theorem compacted_ok (holds : buffer.Holds pending) :
    ∃ rest, compacted buffer pending.length = .ok (pending ++ rest) := by
  obtain ⟨⟨front, back, layout, start, _⟩, _⟩ := holds
  unfold compacted
  by_cases moves : buffer.beginIdx > 0 ∧ pending.length > 0
  · obtain ⟨rest, moved⟩ := moveDown_part front pending back
    rw [if_pos moves, layout, start, moved]
    exact ⟨rest, rfl⟩
  · rw [if_neg moves, layout]
    by_cases empty : pending = []
    · exact ⟨front ++ back, by simp [empty]⟩
    · have none : front = [] := by
        rw [← List.length_eq_zero_iff, ← start]
        have some := List.length_pos_iff.2 empty
        omega
      exact ⟨back, by simp [none]⟩

theorem refill_yields {limit total : Nat} (holds : buffer.Holds pending) (noLf : 10 ∉ pending)
    (maximum : reader.maximum = limit)
    (balance : reader.consumed + reader.left.length = total) :
    Yields (Round.Follows limit total pending reader.left)
      (Refuses limit total (pending ++ reader.left))
      (refill environment buffer reader pending.length) := by
  obtain ⟨rest, compact⟩ := compacted_ok holds
  unfold refill
  rw [compact]
  refine Yields.bind_of_ok rfl ?_
  by_cases long : pending.length ≥ maxLineSize
  · rw [if_pos long]
    have nonempty : pending ++ reader.left ≠ [] := by
      intro none
      have zero := congrArg List.length none
      rw [List.length_append, List.length_nil] at zero
      have positive := maxLineSize_pos
      omega
    obtain ⟨segment, line, more, first⟩ := exists_firstLine nonempty
    exact Or.inl ⟨rfl, segment, line, more, first, le_trans long (first.clean_le noLf)⟩
  · rw [if_neg long]
    have positive := bufferSize_pos
    generalize sizeIs : min bufferSize (maxLineSize - pending.length) = readSize
    obtain ⟨tail, grown, tailLength⟩ := resize_keeps environment.fresh pending rest
      (Nat.le_add_right pending.length (readSize + 1))
    have read := fread_yields environment (show 0 < readSize by omega) maximum
    refine Yields.bind (read.weaken (fun _ facts => facts) ?_) ?_
    · rintro e ⟨which, beyond⟩
      exact Or.inr ⟨which, by omega⟩
    · rintro ⟨bytes, reader'⟩ ⟨split, maximum', short, balance', atEnd⟩
      simp only at split maximum' short balance' atEnd
      obtain ⟨back, written, backLength⟩ := writeAt_part pending
        (show readSize ≤ tail.length by omega) short
      rw [← Nat.add_assoc] at grown
      have bounded := holds.bounded
      refine Yields.bind_of_ok (a := pending ++ bytes ++ back) (by simp only [grown, written, inBlock]) ?_
      by_cases none : bytes = []
      · have allRead := atEnd none
        rw [allRead, none, List.nil_append] at split
        rw [if_pos (by simp [none])]
        by_cases empty : pending.length = 0
        · rw [if_pos empty]
          refine ⟨by rw [List.length_eq_zero_iff.1 empty, allRead]; rfl, maximum', ?_⟩
          have zero := congrArg List.length split
          rw [List.length_nil] at zero
          omega
        · rw [if_neg empty]
          obtain ⟨old, behind, backIs⟩ : ∃ old behind, back = old :: behind := by
            cases back with
            | nil =>
                rw [none, List.length_nil] at backLength
                omega
            | cons old behind => exact ⟨old, behind, rfl⟩
          have stored : store (pending ++ bytes ++ back) pending.length 0 =
              some (pending ++ 0 :: behind) := by
            rw [none, backIs, List.append_nil, store_here]
          refine Yields.bind_of_ok (a := pending ++ 0 :: behind) (by rw [stored]; rfl) ?_
          refine ⟨pending, pending, [], ?_, by omega, rfl, ⟨[], behind, by simp, rfl, ?_⟩,
            maximum', by omega⟩
          · rw [allRead, ← split, List.append_nil, List.append_nil]
            exact .last pending noLf (fun is => empty (by rw [is]; rfl))
          · intro changed length
            refine ⟨⟨changed.take pending.length, changed.drop pending.length ++ behind, ?_, ?_, ?_⟩,
              Nat.zero_le _⟩
            · simp [← List.append_assoc]
            · rw [List.length_take]
              change pending.length = _
              omega
            · rw [List.length_take]
              change pending.length = _ + 0
              omega
      · have some := List.length_pos_iff.2 none
        rw [if_neg (by omega)]
        have whole := congrArg List.length split
        rw [List.length_append] at whole
        refine ⟨pending ++ bytes, by rw [List.append_assoc, ← split], ⟨⟨[], back, ?_, rfl, ?_⟩, ?_⟩,
          by omega, maximum', by omega⟩
        · rfl
        · simp
        · rw [List.length_append]
          omega

theorem readRound_yields {limit total : Nat} (environment : Environment)
    (holds : buffer.Holds pending) (maximum : reader.maximum = limit)
    (balance : reader.consumed + reader.left.length = total) :
    Yields (Round.Follows limit total pending reader.left)
      (Refuses limit total (pending ++ reader.left)) (readRound environment buffer reader) := by
  obtain ⟨⟨front, back, layout, start, size⟩, bounded⟩ := holds
  have available : buffer.bufSize - buffer.beginIdx = pending.length := by omega
  unfold readRound
  rw [available]
  by_cases found : 10 ∈ pending
  · obtain ⟨segment, rest, same, clean⟩ := List.eq_append_cons_of_mem found
    subst same
    have index := getIndex_found front back clean rest []
    simp only [List.nil_append, List.length_nil, ← layout, ← start] at index
    refine Yields.bind_of_ok index ?_
    obtain ⟨buffer', returned, stands⟩ :=
      returnLine_ok reader layout start size bounded
    have short : segment.length < maxLineSize := by
      rw [List.length_append, List.length_cons] at bounded
      omega
    simp only [returned]
    refine ⟨segment, dropCr segment, rest, ?_, short, rfl, stands, maximum, balance⟩
    rw [List.append_assoc, List.cons_append]
    exact .ended segment (rest ++ reader.left) clean
  · have index := getIndex_absent front back found []
    simp only [List.nil_append, List.length_nil, ← layout, ← start] at index
    exact Yields.bind_of_ok index
      (refill_yields ⟨⟨front, back, layout, start, size⟩, bounded⟩ found maximum balance)

/-! ## `read_line` -/

/-- What a call of `read_line` makes of the text not returned yet. -/
def Round.Returned (limit total : Nat) (text : List UInt8) : Round → Prop
  | .line address size buffer reader =>
      ∃ segment line rest pending, FirstLine text segment line rest ∧
        segment.length < maxLineSize ∧ size = line.length ∧ buffer.Returns address line pending ∧
        rest = pending ++ reader.left ∧ reader.maximum = limit ∧
        reader.consumed + reader.left.length = total
  | .endOfInput _ _ => text = [] ∧ total ≤ limit
  | .again _ _ => False

theorem readLoop_yields {limit total : Nat} (environment : Environment) (rounds : Nat)
    (enough : reader.left.length < rounds) (holds : buffer.Holds pending)
    (maximum : reader.maximum = limit)
    (balance : reader.consumed + reader.left.length = total) :
    Yields (Round.Returned limit total (pending ++ reader.left))
      (Refuses limit total (pending ++ reader.left))
      (readLoop environment rounds buffer reader) := by
  induction rounds generalizing buffer reader pending with
  | zero => exact absurd enough (Nat.not_lt_zero _)
  | succ rounds ih =>
      refine (readRound_yields environment holds maximum balance).bind fun round follows => ?_
      cases round with
      | line address size buffer' reader' =>
          obtain ⟨segment, line, rest, first, short, same, stands, facts⟩ := follows
          exact ⟨segment, line, rest ++ reader'.left, rest, first, short, same, stands, rfl, facts⟩
      | endOfInput buffer' reader' =>
          obtain ⟨none, same, all⟩ := follows
          exact ⟨none, by have within := reader'.withinMaximum; omega⟩
      | again buffer' reader' =>
          obtain ⟨now, same, holds', fewer, maximum', balance'⟩ := follows
          have rest := ih (by omega) holds' maximum' balance'
          rwa [same] at rest

/-- The bytes an open reader has still to return. -/
def Owes (buffer : Option LineBuffer) (reader : Reader) (text : List UInt8) : Prop :=
  match buffer with
  | none => text = reader.left
  | some buffer => ∃ pending, buffer.Holds pending ∧ text = pending ++ reader.left

theorem readLine_yields {limit total : Nat} {buffer : Option LineBuffer} {text : List UInt8}
    (environment : Environment) (owes : Owes buffer reader text)
    (maximum : reader.maximum = limit)
    (balance : reader.consumed + reader.left.length = total) :
    Yields (Round.Returned limit total text) (Refuses limit total text)
      (readLine environment buffer reader) := by
  cases buffer with
  | none =>
      cases owes
      have start : LineBuffer.Holds ⟨resize environment.fresh [] bufferSize, 0, 0⟩ [] :=
        ⟨⟨[], resize environment.fresh [] bufferSize, rfl, rfl, rfl⟩, Nat.zero_le _⟩
      exact readLoop_yields environment _ (Nat.lt_succ_self _) start maximum balance
  | some buffer =>
      obtain ⟨pending, holds, rfl⟩ := owes
      exact readLoop_yields environment _ (Nat.lt_succ_self _) holds maximum balance

/-! ## Reading to the end -/

/-- Every segment is below the row limit and the whole input within the input limit. -/
def WithinLimits (maximum : Nat) (input : List UInt8) : Prop :=
  (∀ segment ∈ segments input, segment.length < maxLineSize) ∧ input.length ≤ maximum

instance (maximum : Nat) (input : List UInt8) : Decidable (WithinLimits maximum input) :=
  inferInstanceAs (Decidable (_ ∧ _))

theorem readLines_yields {limit total : Nat} {text : List UInt8} (environment : Environment)
    (calls : Nat) {buffer : Option LineBuffer} (enough : text.length < calls)
    (owes : Owes buffer reader text) (maximum : reader.maximum = limit)
    (balance : reader.consumed + reader.left.length = total) :
    Yields (fun result => result = lines text ∧ total ≤ limit ∧
        ∀ segment ∈ segments text, segment.length < maxLineSize)
      (fun e => (∃ message, e = .runtime message) ∧
        (limit < total ∨ ¬ ∀ segment ∈ segments text, segment.length < maxLineSize))
      (readLines environment calls buffer reader) := by
  induction calls generalizing buffer reader text with
  | zero => exact absurd enough (Nat.not_lt_zero _)
  | succ calls ih =>
      have call := readLine_yields environment owes maximum balance
      refine Yields.bind (call.weaken (fun _ facts => facts) fun e refused => refused.reason) ?_
      rintro round returned
      cases round with
      | line address size buffer' reader' =>
          obtain ⟨segment, line, rest, pending, first, short, same, stands, restIs, maximum',
            balance'⟩ := returned
          have fewer := first.shorter
          have limits := first.segments_short maxLineSize_pos
          have owes' : Owes (some buffer') reader' rest := ⟨pending, stands.holds, restIs⟩
          have later := ih (by omega) owes' maximum' balance'
          refine Yields.bind (later.weaken (fun _ facts => facts) ?_) ?_
          · rintro e ⟨defined, reason⟩
            exact ⟨defined, reason.imp_right fun long all => long (limits.1 all).2⟩
          · rintro others ⟨others_eq, within, allShort⟩
            refine ⟨?_, within, limits.2 ⟨short, allShort⟩⟩
            rw [first.lines_eq, others_eq, same, stands.line_bytes]
      | endOfInput buffer' reader' =>
          obtain ⟨rfl, within⟩ := returned
          refine ⟨lines_nil.symm, within, ?_⟩
          have none : segments ([] : List UInt8) = [[]] := segments_last List.not_mem_nil
          rw [none, List.forall_mem_singleton]
          exact maxLineSize_pos
      | again buffer' reader' => exact returned.elim

/-- Reading to the end returns the input's lines, however the reads were split, and raises
exactly where a limit is exceeded.  No access leaves the buffer. -/
theorem readLines_independent_of_chunking (environment : Environment) (maximum : Nat)
    (input : List UInt8) :
    (WithinLimits maximum input →
        readLines environment (input.length + 1) none (Reader.openAt maximum input) =
          .ok (lines input)) ∧
      (¬ WithinLimits maximum input →
        ∃ message, readLines environment (input.length + 1) none (Reader.openAt maximum input) =
          .error (.runtime message)) := by
  have reads := readLines_yields environment (input.length + 1) (Nat.lt_succ_self _)
    (show Owes none (Reader.openAt maximum input) input from rfl) rfl (Nat.zero_add _)
  generalize readLines environment _ none _ = outcome at reads ⊢
  cases outcome with
  | ok result =>
      obtain ⟨same, fits, short⟩ := reads
      exact ⟨fun _ => congrArg _ same, fun outside => absurd ⟨short, fits⟩ outside⟩
  | error e =>
      obtain ⟨⟨message, rfl⟩, reason⟩ := reads
      refine ⟨fun within => ?_, fun _ => ⟨message, rfl⟩⟩
      rcases reason with beyond | long
      · exact absurd within.2 (Nat.not_le.2 beyond)
      · exact absurd within.1 long

end Gambit.Csv
