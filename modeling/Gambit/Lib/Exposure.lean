import Mathlib.Algebra.Order.BigOperators.Group.Finset
import Mathlib.Tactic

/-!
# Exposure of pending quantities

Signed quantities of which any part may still be filled.  A part lies between
zero and the whole.  A charge reserves something for every pending quantity and
takes no more for its fills than it reserved; then what is taken and what is
still reserved never exceeds what was reserved at first.
-/

set_option autoImplicit false

namespace Exposure

variable {α ι τ : Type} [AddCommGroup α] [DecidableEq ι]

/-- What the fills leave of the pending quantity at `i`. -/
def left (owner : τ → ι) (size : τ → α) (pending : ι → α) (fills : List τ) (i : ι) : α :=
  pending i - ((fills.filter fun fill => owner fill = i).map size).sum

variable {owner : τ → ι} {size : τ → α} {pending : ι → α}

theorem left_cons (fill : τ) (fills : List τ) (i : ι) :
    left owner size pending (fill :: fills) i =
      left owner size
        (Function.update pending (owner fill) (pending (owner fill) - size fill)) fills i := by
  unfold left
  by_cases same : owner fill = i
  · subst same
    rw [List.filter_cons_of_pos (by simp), List.map_cons, List.sum_cons, Function.update_self]
    abel
  · rw [List.filter_cons_of_neg (by simpa using same), Function.update_of_ne (Ne.symm same)]

variable [LinearOrder α]

def Part (whole part : α) : Prop := 0 ≤ part ∧ part ≤ whole ∨ whole ≤ part ∧ part ≤ 0

variable {whole part a b c : α}

theorem Part.refl (whole : α) : Part whole whole :=
  (le_total 0 whole).imp (fun h => ⟨h, le_refl _⟩) fun h => ⟨le_refl _, h⟩

theorem Part.zero (whole : α) : Part whole 0 :=
  (le_total 0 whole).imp (fun h => ⟨le_refl _, h⟩) fun h => ⟨h, le_refl _⟩

theorem Part.trans (first : Part a b) (second : Part b c) : Part a c := by
  rcases first with ⟨positive, below⟩ | ⟨above, negative⟩
  · rcases second with ⟨positive', below'⟩ | ⟨above', negative'⟩
    · exact Or.inl ⟨positive', below'.trans below⟩
    · have zero : c = 0 := le_antisymm negative' (positive.trans above')
      rw [zero]
      exact .zero a
  · rcases second with ⟨positive', below'⟩ | ⟨above', negative'⟩
    · have zero : c = 0 := le_antisymm (below'.trans negative) positive'
      rw [zero]
      exact .zero a
    · exact Or.inr ⟨above.trans above', negative'⟩

/-- Each fill is a part of what the fills before it left. -/
def Fillable (owner : τ → ι) (size : τ → α) : (ι → α) → List τ → Prop
  | _, [] => True
  | pending, fill :: fills =>
      Part (pending (owner fill)) (size fill) ∧
        Fillable owner size
          (Function.update pending (owner fill) (pending (owner fill) - size fill)) fills

theorem Fillable.take {fills : List τ} (fillable : Fillable owner size pending fills) (n : Nat) :
    Fillable owner size pending (fills.take n) := by
  induction fills generalizing pending n with
  | nil => simp [Fillable]
  | cons fill fills ih =>
      cases n with
      | zero => trivial
      | succ n => exact ⟨fillable.1, ih fillable.2 n⟩

variable [IsOrderedAddMonoid α]

/-- What is left is a part as well. -/
theorem Part.rest (realised : Part whole part) : Part whole (whole - part) := by
  rcases realised with ⟨positive, below⟩ | ⟨above, negative⟩
  · exact Or.inl ⟨sub_nonneg.mpr below, sub_le_self whole positive⟩
  · exact Or.inr ⟨le_sub_self_iff whole |>.mpr negative, sub_nonpos.mpr above⟩

theorem Part.abs_le (realised : Part whole part) : |part| ≤ |whole| := by
  rcases realised with ⟨positive, below⟩ | ⟨above, negative⟩
  · rw [abs_of_nonneg positive, abs_of_nonneg (positive.trans below)]
    exact below
  · rw [abs_of_nonpos negative, abs_of_nonpos (above.trans negative)]
    exact neg_le_neg above

/-- The absolute quantities of a part and of the rest add up. -/
theorem Part.abs_add (realised : Part whole part) : |part| + |whole - part| = |whole| := by
  rcases realised with ⟨positive, below⟩ | ⟨above, negative⟩
  · rw [abs_of_nonneg positive, abs_of_nonneg (sub_nonneg.mpr below),
      abs_of_nonneg (positive.trans below), add_sub_cancel]
  · rw [abs_of_nonpos negative, abs_of_nonpos (sub_nonpos.mpr above),
      abs_of_nonpos (above.trans negative), neg_sub, neg_add_eq_sub, sub_sub_cancel_left]

theorem part_of_abs_le (bounded : |part| ≤ |whole|) (up : 0 < whole → 0 ≤ part)
    (down : ¬ 0 < whole → part ≤ 0) : Part whole part := by
  by_cases positive : 0 < whole
  · rw [abs_of_nonneg (up positive), abs_of_pos positive] at bounded
    exact Or.inl ⟨up positive, bounded⟩
  · rw [abs_of_nonpos (down positive), abs_of_nonpos (not_lt.mp positive)] at bounded
    exact Or.inr ⟨neg_le_neg_iff.mp bounded, down positive⟩

theorem Part.max_add (realised : Part whole part) : max 0 (whole - part) + part ≤ max 0 whole := by
  rcases realised with ⟨positive, below⟩ | ⟨above, negative⟩
  · rw [max_eq_right (sub_nonneg.mpr below), sub_add_cancel]
    exact le_max_right 0 whole
  · rw [max_eq_left (sub_nonpos.mpr above), zero_add]
    exact negative.trans (le_max_left 0 whole)

omit [IsOrderedAddMonoid α] in
theorem Part.le_max (realised : Part whole part) : part ≤ max 0 whole := by
  rcases realised with ⟨_, below⟩ | ⟨_, negative⟩
  · exact below.trans (le_max_right ..)
  · exact negative.trans (le_max_left ..)

theorem Part.neg (realised : Part whole part) : Part (-whole) (-part) := by
  rcases realised with ⟨positive, below⟩ | ⟨above, negative⟩
  · exact Or.inr ⟨neg_le_neg below, neg_nonpos.mpr positive⟩
  · exact Or.inl ⟨neg_nonneg.mpr negative, neg_le_neg above⟩

/-! ## Fills of pending quantities -/

theorem Fillable.left_part {fills : List τ} (fillable : Fillable owner size pending fills) (i : ι) :
    Part (pending i) (left owner size pending fills i) := by
  induction fills generalizing pending with
  | nil =>
      simp only [left, List.filter_nil, List.map_nil, List.sum_nil, sub_zero]
      exact .refl _
  | cons fill fills ih =>
      rw [left_cons]
      refine Part.trans ?_ (ih fillable.2)
      by_cases same : i = owner fill
      · subst same
        rw [Function.update_self]
        exact fillable.1.rest
      · rw [Function.update_of_ne same]
        exact .refl _

/-- Fills in one direction that stay within the pending quantities. -/
theorem fillable_of_directed {fills : List τ} (positive : ι → Prop)
    (up : ∀ fill ∈ fills, positive (owner fill) → 0 ≤ size fill)
    (down : ∀ fill ∈ fills, ¬ positive (owner fill) → size fill ≤ 0)
    (above : ∀ i, positive i → 0 ≤ left owner size pending fills i)
    (below : ∀ i, ¬ positive i → left owner size pending fills i ≤ 0) :
    Fillable owner size pending fills := by
  induction fills generalizing pending with
  | nil => trivial
  | cons fill fills ih =>
      have rest : Fillable owner size
          (Function.update pending (owner fill) (pending (owner fill) - size fill)) fills := by
        refine ih (fun other member => up other (List.mem_cons_of_mem _ member))
          (fun other member => down other (List.mem_cons_of_mem _ member))
          (fun i h => ?_) fun i h => ?_
        · rw [← left_cons]
          exact above i h
        · rw [← left_cons]
          exact below i h
      have mine : ∀ size' ∈ (fills.filter fun other => owner other = owner fill).map size,
          ∃ other ∈ fills, owner other = owner fill ∧ size other = size' := fun size' member => by
        obtain ⟨other, listed, same⟩ := List.mem_map.mp member
        obtain ⟨listed, own⟩ := List.mem_filter.mp listed
        exact ⟨other, listed, of_decide_eq_true own, same⟩
      refine ⟨?_, rest⟩
      by_cases h : positive (owner fill)
      · have total := above (owner fill) h
        rw [left, List.filter_cons_of_pos (by simp), List.map_cons, List.sum_cons] at total
        have later : 0 ≤ ((fills.filter fun other => owner other = owner fill).map size).sum :=
          List.sum_nonneg fun size' member => by
            obtain ⟨other, listed, own, rfl⟩ := mine size' member
            exact up other (List.mem_cons_of_mem _ listed) (own ▸ h)
        refine Or.inl ⟨up fill (List.mem_cons_self ..) h, ?_⟩
        exact (le_add_of_nonneg_right later).trans (sub_nonneg.mp total)
      · have total := below (owner fill) h
        rw [left, List.filter_cons_of_pos (by simp), List.map_cons, List.sum_cons] at total
        have later : ((fills.filter fun other => owner other = owner fill).map size).sum ≤ 0 :=
          (List.sum_le_card_nsmul _ 0 fun size' member => by
            obtain ⟨other, listed, own, rfl⟩ := mine size' member
            exact down other (List.mem_cons_of_mem _ listed) (own ▸ h)).trans (smul_zero _).le
        refine Or.inr ⟨?_, down fill (List.mem_cons_self ..) h⟩
        exact (sub_nonpos.mp total).trans (add_le_of_nonpos_right later)

/-! ## Quantities against a position -/

section Opposed

variable {K : Type} [Field K] [LinearOrder K] [IsStrictOrderedRing K] {position qty part x y : K}

theorem opposed_of_abs_lt (lowers : |position + qty| < |position|) :
    0 < position ∧ qty < 0 ∨ position < 0 ∧ 0 < qty := by
  rcases lt_trichotomy position 0 with short | flat | long
  · rw [abs_of_neg short] at lowers
    exact Or.inr ⟨short, by linarith [neg_abs_le (position + qty)]⟩
  · rw [flat, abs_zero] at lowers
    exact absurd lowers (not_lt.mpr (abs_nonneg _))
  · rw [abs_of_pos long] at lowers
    exact Or.inl ⟨long, by linarith [le_abs_self (position + qty)]⟩

/-- If the whole quantity lowers the absolute position then so does a part. -/
theorem abs_add_part_lt (lowers : |position + qty| < |position|) (realised : Part qty part)
    (nonzero : part ≠ 0) : |position + part| < |position| := by
  obtain ⟨above, below⟩ := abs_lt.mp lowers
  rcases opposed_of_abs_lt lowers with ⟨long, sells⟩ | ⟨short, buys⟩
  · rw [abs_of_pos long] at above ⊢
    rcases realised with ⟨positive, small⟩ | ⟨large, negative⟩
    · linarith
    · have sold : part < 0 := lt_of_le_of_ne negative nonzero
      exact abs_lt.mpr ⟨by linarith, by linarith⟩
  · rw [abs_of_neg short] at below ⊢
    rcases realised with ⟨positive, small⟩ | ⟨large, negative⟩
    · have bought : 0 < part := lt_of_le_of_ne positive (Ne.symm nonzero)
      exact abs_lt.mpr ⟨by linarith, by linarith⟩
    · linarith

theorem part_iff_abs_le : Part x y ↔ |y| ≤ |x| ∧ 0 ≤ x * y := by
  constructor
  · intro realised
    refine ⟨realised.abs_le, ?_⟩
    rcases realised with ⟨positive, below⟩ | ⟨above, negative⟩
    · exact mul_nonneg (positive.trans below) positive
    · exact mul_nonneg_of_nonpos_of_nonpos (above.trans negative) negative
  · rintro ⟨small, aligned⟩
    refine part_of_abs_le small (fun positive => ?_) fun nonpositive => ?_
    · exact nonneg_of_mul_nonneg_right aligned positive
    · rcases (not_lt.mp nonpositive).eq_or_lt with zero | negative
      · rw [zero, abs_zero] at small
        exact (abs_nonpos_iff.mp small).le
      · exact nonpos_of_mul_nonneg_right aligned negative

/-- A quantity that lowers `position` keeps `x` between zero and where it was
just when `x` lies on the same side and is no smaller than the quantity. -/
theorem part_add_iff (lowers : |position + qty| < |position|) :
    (∀ part, Part qty part → Part x (x + part)) ↔ 0 < x * position ∧ |qty| ≤ |x| := by
  rcases opposed_of_abs_lt lowers with ⟨long, sells⟩ | ⟨short, buys⟩
  · rw [mul_pos_iff_of_pos_right long, abs_of_neg sells]
    constructor
    · intro kept
      rcases kept qty (.refl qty) with ⟨positive, _⟩ | ⟨above, _⟩
      · have held : 0 < x := by linarith
        rw [abs_of_pos held]
        exact ⟨held, by linarith⟩
      · linarith
    · rintro ⟨held, enough⟩ part realised
      rw [abs_of_pos held] at enough
      rcases realised with ⟨positive, small⟩ | ⟨large, negative⟩
      · linarith
      · exact Or.inl ⟨by linarith, by linarith⟩
  · rw [← neg_mul_neg, mul_pos_iff_of_pos_right (neg_pos.mpr short), neg_pos, abs_of_pos buys]
    constructor
    · intro kept
      rcases kept qty (.refl qty) with ⟨_, below⟩ | ⟨_, negative⟩
      · linarith
      · have held : x < 0 := by linarith
        rw [abs_of_neg held]
        exact ⟨held, by linarith⟩
    · rintro ⟨held, enough⟩ part realised
      rw [abs_of_neg held] at enough
      rcases realised with ⟨positive, small⟩ | ⟨large, negative⟩
      · exact Or.inr ⟨by linarith, by linarith⟩
      · linarith

end Opposed

/-! ## Charges -/

variable {β : Type} [AddCommGroup β] [LinearOrder β] [IsOrderedAddMonoid β]

omit [IsOrderedAddMonoid α] in
theorem reserved_covers (reserve : ι → α → β) (use : τ → β) {fills : List τ} {s : Finset ι}
    (fillable : Fillable owner size pending fills) (owned : ∀ fill ∈ fills, owner fill ∈ s)
    (settles : ∀ fill ∈ fills, ∀ whole, Part whole (size fill) →
      reserve (owner fill) (whole - size fill) + use fill ≤ reserve (owner fill) whole) :
    ∑ i ∈ s, reserve i (left owner size pending fills i) + (fills.map use).sum ≤
      ∑ i ∈ s, reserve i (pending i) := by
  induction fills generalizing pending with
  | nil => simp [left]
  | cons fill fills ih =>
      have later := ih fillable.2 (fun other member => owned other (List.mem_cons_of_mem _ member))
        fun other member => settles other (List.mem_cons_of_mem _ member)
      have member := owned fill (List.mem_cons_self ..)
      have now := settles fill (List.mem_cons_self ..) _ fillable.1
      have untouched : ∑ i ∈ s.erase (owner fill), reserve i (Function.update pending (owner fill)
            (pending (owner fill) - size fill) i) =
          ∑ i ∈ s.erase (owner fill), reserve i (pending i) :=
        Finset.sum_congr rfl fun i other => by
          rw [Function.update_of_ne (Finset.ne_of_mem_erase other)]
      rw [← Finset.add_sum_erase s (fun i => reserve i (Function.update pending (owner fill)
        (pending (owner fill) - size fill) i)) member, Function.update_self, untouched] at later
      rw [← Finset.add_sum_erase s (fun i => reserve i (pending i)) member, List.map_cons,
        List.sum_cons]
      simp only [left_cons]
      calc _ = (∑ i ∈ s, reserve i (left owner size (Function.update pending (owner fill)
              (pending (owner fill) - size fill)) fills i) + (fills.map use).sum) + use fill := by abel
        _ ≤ _ := add_le_add_left later _
        _ = (reserve (owner fill) (pending (owner fill) - size fill) + use fill) +
              ∑ i ∈ s.erase (owner fill), reserve i (pending i) := by abel
        _ ≤ _ := add_le_add_left now _

end Exposure
