import Mathlib.Tactic

/-!
# Proportional caps

Weighted elements, of which a cap covers some and scales these down together
until their gross weight is at most its maximum.  A later cap only shrinks what
an earlier one left, so a sequence of caps meets all its maxima; caps that cover
nothing in common commute.
-/

set_option autoImplicit false

namespace Caps

variable {α K : Type} [Field K] [LinearOrder K]

/-- Elements whose weight scales with them. -/
structure Scaling (α K : Type) [Field K] where
  weight : α → K
  scale : K → α → α
  weight_scale : ∀ k a, weight (scale k a) = k * weight a
  scale_scale : ∀ j k a, scale j (scale k a) = scale (j * k) a
  scale_one : ∀ a, scale 1 a = a

/-- A positive maximum for the elements covered, which scaling leaves covered. -/
structure Cap (scaling : Scaling α K) where
  covers : α → Bool
  maximum : K
  positive : 0 < maximum
  covers_scale : ∀ k a, covers (scaling.scale k a) = covers a

variable {scaling : Scaling α K}

def gross (scaling : Scaling α K) (covers : α → Bool) (xs : List α) : K :=
  ((xs.filter covers).map fun a => |scaling.weight a|).sum

namespace Cap

def factor (cap : Cap scaling) (xs : List α) : K :=
  if 0 < gross scaling cap.covers xs then min 1 (cap.maximum / gross scaling cap.covers xs) else 1

def scaleCovered (cap : Cap scaling) (k : K) (a : α) : α :=
  if cap.covers a then scaling.scale k a else a

def apply (cap : Cap scaling) (xs : List α) : List α :=
  xs.map (cap.scaleCovered (cap.factor xs))

end Cap

def applyAll (caps : List (Cap scaling)) (xs : List α) : List α :=
  caps.foldl (fun xs cap => cap.apply xs) xs

/-! ## One cap -/

variable {cap other : Cap scaling} {xs ys : List α} {covers : α → Bool}

theorem gross_cons (a : α) : gross scaling covers (a :: xs) =
    (if covers a then |scaling.weight a| else 0) + gross scaling covers xs := by
  cases covered : covers a <;> simp [gross, covered]

namespace Cap

theorem factor_le_one : cap.factor xs ≤ 1 := by
  unfold factor
  split
  · exact min_le_left _ _
  · exact le_refl _

theorem covers_scaleCovered (k : K) (a : α) :
    other.covers (cap.scaleCovered k a) = other.covers a := by
  unfold scaleCovered
  split
  · exact other.covers_scale k a
  · rfl

/-- Nothing is covered by both. -/
def Apart (cap other : Cap scaling) : Prop := ∀ a, ¬ (cap.covers a = true ∧ other.covers a = true)

theorem Apart.symm (apart : cap.Apart other) : other.Apart cap := fun a both => apart a both.symm

theorem Apart.scaleCovered_comm (apart : cap.Apart other) (j k : K) (a : α) :
    cap.scaleCovered j (other.scaleCovered k a) = other.scaleCovered k (cap.scaleCovered j a) := by
  unfold scaleCovered
  by_cases here : cap.covers a = true
  · have there : other.covers a = false := Bool.eq_false_iff.mpr fun both => apart a ⟨here, both⟩
    simp [here, there, other.covers_scale]
  · by_cases there : other.covers a = true
    · simp [here, there, cap.covers_scale]
    · simp [here, there]

end Cap

variable [IsStrictOrderedRing K]

theorem gross_nonneg : 0 ≤ gross scaling covers xs := by
  apply List.sum_nonneg
  intro value member
  obtain ⟨a, _, rfl⟩ := List.mem_map.mp member
  exact abs_nonneg _

namespace Cap

theorem factor_pos : 0 < cap.factor xs := by
  unfold factor
  split
  · rename_i some
    exact lt_min one_pos (div_pos cap.positive some)
  · exact one_pos

theorem factor_mul_gross_le : cap.factor xs * gross scaling cap.covers xs ≤ cap.maximum := by
  unfold factor
  split
  · rename_i some
    calc
      min 1 (cap.maximum / gross scaling cap.covers xs) * gross scaling cap.covers xs ≤
          cap.maximum / gross scaling cap.covers xs * gross scaling cap.covers xs :=
        mul_le_mul_of_nonneg_right (min_le_right _ _) gross_nonneg
      _ = cap.maximum := div_mul_cancel₀ _ some.ne'
  · rename_i none
    rw [one_mul]
    exact (not_lt.mp none).trans cap.positive.le

theorem factor_eq_one (within : gross scaling cap.covers xs ≤ cap.maximum) :
    cap.factor xs = 1 := by
  unfold factor
  split
  · rename_i some
    exact min_eq_left ((one_le_div some).mpr within)
  · rfl

theorem gross_map_own (k : K) (nonneg : 0 ≤ k) :
    gross scaling cap.covers (xs.map (cap.scaleCovered k)) = k * gross scaling cap.covers xs := by
  induction xs with
  | nil => simp [gross]
  | cons a xs ih =>
      rw [List.map_cons, gross_cons, gross_cons, covers_scaleCovered, ih, mul_add]
      congr 1
      cases covered : cap.covers a with
      | false => simp
      | true => simp [scaleCovered, covered, scaling.weight_scale, abs_mul, abs_of_nonneg nonneg]

theorem abs_weight_scaleCovered_le {k : K} (nonneg : 0 ≤ k) (small : k ≤ 1) (a : α) :
    |scaling.weight (cap.scaleCovered k a)| ≤ |scaling.weight a| := by
  unfold scaleCovered
  split
  · rw [scaling.weight_scale, abs_mul, abs_of_nonneg nonneg]
    exact mul_le_of_le_one_left (abs_nonneg _) small
  · exact le_refl _

/-- A cap brings its own gross weight within its maximum. -/
theorem gross_apply_le : gross scaling cap.covers (cap.apply xs) ≤ cap.maximum := by
  rw [apply, gross_map_own _ factor_pos.le]
  exact factor_mul_gross_le

/-- A cap raises no gross weight. -/
theorem gross_apply_le_gross (other : Cap scaling) :
    gross scaling other.covers (cap.apply xs) ≤ gross scaling other.covers xs := by
  have nonneg : 0 ≤ cap.factor xs := factor_pos.le
  have small : cap.factor xs ≤ 1 := factor_le_one
  unfold apply
  generalize cap.factor xs = k at nonneg small
  induction xs with
  | nil => exact le_refl _
  | cons a xs ih =>
      rw [List.map_cons, gross_cons, gross_cons, covers_scaleCovered]
      refine add_le_add ?_ ih
      split
      · exact abs_weight_scaleCovered_le nonneg small a
      · exact le_refl _

theorem apply_of_within (within : gross scaling cap.covers xs ≤ cap.maximum) :
    cap.apply xs = xs := by
  rw [apply, factor_eq_one within]
  refine List.map_id'' (fun a => ?_) xs
  unfold scaleCovered
  split
  · exact scaling.scale_one a
  · rfl

omit [IsStrictOrderedRing K] in
theorem Apart.gross_map (apart : cap.Apart other) (k : K) :
    gross scaling cap.covers (xs.map (other.scaleCovered k)) = gross scaling cap.covers xs := by
  induction xs with
  | nil => rfl
  | cons a xs ih =>
      rw [List.map_cons, gross_cons, gross_cons, covers_scaleCovered, ih]
      congr 1
      split
      · rename_i here
        have there : other.covers a = false := Bool.eq_false_iff.mpr fun both => apart a ⟨here, both⟩
        rw [scaleCovered, there]
        rfl
      · rfl

theorem Apart.factor_apply (apart : cap.Apart other) : cap.factor (other.apply xs) = cap.factor xs := by
  unfold factor
  rw [apply, apart.gross_map]

theorem Apart.apply_comm (apart : cap.Apart other) :
    cap.apply (other.apply xs) = other.apply (cap.apply xs) := by
  calc
    cap.apply (other.apply xs) =
        (xs.map (other.scaleCovered (other.factor xs))).map (cap.scaleCovered (cap.factor xs)) := by
      rw [apply, apart.factor_apply, apply]
    _ = (xs.map (cap.scaleCovered (cap.factor xs))).map (other.scaleCovered (other.factor xs)) := by
      rw [List.map_map, List.map_map]
      exact List.map_congr_left fun a _ => apart.scaleCovered_comm _ _ a
    _ = other.apply (cap.apply xs) := by
      rw [← apart.symm.factor_apply, apply, apply]

end Cap

/-! ## A sequence of caps -/

/-- An element scaled by a positive factor of at most one. -/
def Shrunk (scaling : Scaling α K) (a b : α) : Prop := ∃ k, 0 < k ∧ k ≤ 1 ∧ b = scaling.scale k a

theorem Shrunk.refl (a : α) : Shrunk scaling a a :=
  ⟨1, one_pos, le_refl _, (scaling.scale_one a).symm⟩

theorem Shrunk.trans {a b c : α} (first : Shrunk scaling a b) (second : Shrunk scaling b c) :
    Shrunk scaling a c := by
  obtain ⟨k, kPos, kSmall, rfl⟩ := first
  obtain ⟨j, jPos, jSmall, rfl⟩ := second
  exact ⟨j * k, mul_pos jPos kPos, mul_le_one₀ jSmall kPos.le kSmall, scaling.scale_scale j k a⟩

theorem shrunk_apply (cap : Cap scaling) (xs : List α) :
    List.Forall₂ (Shrunk scaling) xs (cap.apply xs) := by
  rw [Cap.apply, List.forall₂_map_right_iff]
  refine List.forall₂_same.mpr fun a _ => ?_
  unfold Cap.scaleCovered
  split
  · exact ⟨_, Cap.factor_pos, Cap.factor_le_one, rfl⟩
  · exact .refl a

theorem shrunk_trans {zs : List α} (first : List.Forall₂ (Shrunk scaling) xs ys)
    (second : List.Forall₂ (Shrunk scaling) ys zs) : List.Forall₂ (Shrunk scaling) xs zs := by
  induction first generalizing zs with
  | nil =>
      cases second
      exact .nil
  | cons here _ ih =>
      cases second with
      | cons there rest => exact .cons (here.trans there) (ih rest)

theorem shrunk_applyAll (caps : List (Cap scaling)) (xs : List α) :
    List.Forall₂ (Shrunk scaling) xs (applyAll caps xs) := by
  induction caps generalizing xs with
  | nil => exact List.forall₂_same.mpr fun a _ => .refl a
  | cons cap caps ih =>
      exact shrunk_trans (shrunk_apply cap xs) (ih (cap.apply xs))

theorem gross_applyAll_le (caps : List (Cap scaling)) (xs : List α) (other : Cap scaling) :
    gross scaling other.covers (applyAll caps xs) ≤ gross scaling other.covers xs := by
  induction caps generalizing xs with
  | nil => exact le_refl _
  | cons cap caps ih => exact (ih (cap.apply xs)).trans (Cap.gross_apply_le_gross other)

/-- All the maxima hold at the end. -/
theorem applyAll_within (caps : List (Cap scaling)) (xs : List α) :
    ∀ cap ∈ caps, gross scaling cap.covers (applyAll caps xs) ≤ cap.maximum := by
  induction caps generalizing xs with
  | nil => exact fun _ none => absurd none List.not_mem_nil
  | cons first caps ih =>
      intro cap member
      rcases List.mem_cons.mp member with rfl | later
      · exact (gross_applyAll_le caps (cap.apply xs) cap).trans Cap.gross_apply_le
      · exact ih (first.apply xs) cap later

theorem applyAll_of_within {caps : List (Cap scaling)}
    (within : ∀ cap ∈ caps, gross scaling cap.covers xs ≤ cap.maximum) : applyAll caps xs = xs := by
  induction caps with
  | nil => rfl
  | cons cap caps ih =>
      rw [List.forall_mem_cons] at within
      rw [applyAll, List.foldl_cons, Cap.apply_of_within within.1]
      exact ih within.2

/-! ## The order of the caps -/

section Ordered

variable {β σ : Type} {f : σ → β → σ}

/-- A step may be taken before steps it commutes with. -/
theorem foldl_move {b : β} {before after : List β} (s : σ)
    (commutes : ∀ c ∈ before, ∀ s, f (f s c) b = f (f s b) c) :
    (before ++ b :: after).foldl f s = (b :: (before ++ after)).foldl f s := by
  induction before generalizing s with
  | nil => rfl
  | cons c before ih =>
      rw [List.forall_mem_cons] at commutes
      have rest := ih (f s c) commutes.2
      rw [List.cons_append, List.foldl_cons, rest, List.foldl_cons, commutes.1, List.cons_append,
        List.foldl_cons, List.foldl_cons]

/-- Two orders of the same steps, both by rank, come to the same where steps of one rank
commute. -/
theorem foldl_eq_of_ranked (rank : β → Nat) {xs ys : List β} (same : xs.Perm ys)
    (ranked : xs.Pairwise fun a b => rank a ≤ rank b)
    (rankedOther : ys.Pairwise fun a b => rank a ≤ rank b)
    (commutes : ∀ a ∈ xs, ∀ b ∈ xs, rank a = rank b → ∀ s, f (f s a) b = f (f s b) a) (s : σ) :
    xs.foldl f s = ys.foldl f s := by
  induction xs generalizing ys s with
  | nil => rw [List.nil_perm.mp same]
  | cons x xs ih =>
      obtain ⟨first, ranked⟩ := List.pairwise_cons.mp ranked
      obtain ⟨before, after, rfl⟩ := List.append_of_mem (same.subset List.mem_cons_self)
      have rest : xs.Perm (before ++ after) :=
        (List.perm_cons x).mp (same.trans List.perm_middle)
      -- What stands before `x` in the other order has its rank.
      have level : ∀ c ∈ before, rank c = rank x := by
        intro c member
        have above : rank x ≤ rank c := first c (rest.symm.subset (List.mem_append_left _ member))
        have below := (List.pairwise_append.mp rankedOther).2.2 c member x List.mem_cons_self
        exact Nat.le_antisymm below above
      have moved : (before ++ x :: after).foldl f s = (x :: (before ++ after)).foldl f s := by
        refine foldl_move s fun c member => ?_
        exact commutes c (List.mem_cons_of_mem _
          (rest.symm.subset (List.mem_append_left _ member))) x List.mem_cons_self (level c member)
      have rankedRest : (before ++ after).Pairwise fun a b => rank a ≤ rank b :=
        rankedOther.sublist ((List.sublist_cons_self x after).append_left before)
      rw [moved, List.foldl_cons, List.foldl_cons]
      exact ih rest ranked rankedRest (fun a inA b inB => commutes a (List.mem_cons_of_mem _ inA) b
        (List.mem_cons_of_mem _ inB)) (f s x)

end Ordered

end Caps
