import Mathlib.Tactic

/-!
# The lines of a text

What the reader is to return: the segments ended by LF, each without one CR at
its end, and a last segment without LF as it is when it has any byte.
-/

set_option autoImplicit false

namespace Gambit.Csv

/-- A segment without the CR that may stand before its LF. -/
def dropCr (segment : List UInt8) : List UInt8 :=
  if segment.getLast? = some 13 then segment.dropLast else segment

/-- The segments between the LF bytes; the last one is not ended by LF. -/
def segments (text : List UInt8) : List (List UInt8) := text.splitOn 10

def lines (text : List UInt8) : List (List UInt8) :=
  (segments text).dropLast.map dropCr ++ (segments text).getLast?.toList.filter (· ≠ [])

/-- The text's first line, with the segment it stands in and the text that follows. -/
inductive FirstLine : List UInt8 → List UInt8 → List UInt8 → List UInt8 → Prop where
  | ended (segment rest : List UInt8) (clean : 10 ∉ segment) :
      FirstLine (segment ++ 10 :: rest) segment (dropCr segment) rest
  | last (segment : List UInt8) (clean : 10 ∉ segment) (nonempty : segment ≠ []) :
      FirstLine segment segment segment []

variable {text segment line rest : List UInt8}

theorem segments_ended (clean : 10 ∉ segment) :
    segments (segment ++ 10 :: rest) = segment :: segments rest :=
  List.splitOn_append_cons_self_of_not_mem clean rest

theorem segments_last (clean : 10 ∉ segment) : segments segment = [segment] :=
  List.splitOn_eq_singleton clean

theorem segments_ne_nil : segments text ≠ [] := List.splitOn_ne_nil 10 text

theorem lines_nil : lines [] = [] := by
  simp [lines, segments_last]

theorem FirstLine.lines_eq (first : FirstLine text segment line rest) :
    lines text = line :: lines rest := by
  cases first with
  | ended _ _ clean =>
      have more : segments rest ≠ [] := segments_ne_nil
      rw [lines, segments_ended clean, List.dropLast_cons_of_ne_nil more,
        List.getLast?_cons_of_ne_nil more]
      rfl
  | last _ clean nonempty => simp [lines, segments_last, clean, nonempty]

theorem FirstLine.segments_short {limit : Nat} (positive : 0 < limit)
    (first : FirstLine text segment line rest) :
    (∀ other ∈ segments text, other.length < limit) ↔
      segment.length < limit ∧ ∀ other ∈ segments rest, other.length < limit := by
  cases first with
  | ended _ _ clean => rw [segments_ended clean, List.forall_mem_cons]
  | last _ clean nonempty => simp [segments_last, clean, positive]

theorem FirstLine.shorter (first : FirstLine text segment line rest) :
    rest.length < text.length := by
  cases first with
  | ended =>
      rw [List.length_append, List.length_cons]
      omega
  | last _ _ nonempty => exact List.length_pos_iff.2 nonempty

theorem exists_firstLine (nonempty : text ≠ []) :
    ∃ segment line rest, FirstLine text segment line rest := by
  by_cases found : 10 ∈ text
  · obtain ⟨segment, rest, same, clean⟩ := List.eq_append_cons_of_mem found
    exact ⟨segment, dropCr segment, rest, same ▸ .ended segment rest clean⟩
  · exact ⟨text, text, [], .last text found nonempty⟩

theorem dropCr_length_le (segment : List UInt8) : (dropCr segment).length ≤ segment.length := by
  unfold dropCr
  split
  · rw [List.length_dropLast]
    omega
  · exact Nat.le_refl _

end Gambit.Csv
