import Mathlib.Tactic
import Mathlib.Data.List.Infix

/-!
# Trees addressed by paths

A tree is the partial map from paths to what stands there.  Branches carry a
label, leaves a content; the root is a branch, and so is what a node stands in.
Deleting and moving take whole subtrees, and each operation says which paths it
leaves as they were.
-/

set_option autoImplicit false

namespace PathTrees

inductive Node (γ δ : Type) where
  | branch (label : γ)
  | leaf (content : δ)
deriving DecidableEq

structure Tree (κ γ δ : Type) where
  node : List κ → Option (Node γ δ)
  root : ∃ label, node [] = some (.branch label)
  closed : ∀ path name, node (path ++ [name]) ≠ none → ∃ label, node path = some (.branch label)

def Node.isLeaf {γ δ : Type} : Node γ δ → Bool
  | .branch _ => false
  | .leaf _ => true

namespace Tree

variable {κ γ δ : Type}

/-- The tree of a root alone. -/
def bare (label : γ) : Tree κ γ δ where
  node path := match path with
    | [] => some (.branch label)
    | _ :: _ => none
  root := ⟨label, rfl⟩
  closed path name present := by
    exfalso
    apply present
    cases path <;> rfl

/-- What a node stands in, at any height, is a branch. -/
theorem branch_of_below (tree : Tree κ γ δ) {path below : List κ} (proper : below ≠ [])
    (present : tree.node (path ++ below) ≠ none) :
    ∃ label, tree.node path = some (.branch label) := by
  induction below using List.reverseRecOn with
  | nil => exact absurd rfl proper
  | append_singleton below name ih =>
      rw [← List.append_assoc] at present
      obtain ⟨label, standing⟩ := tree.closed _ _ present
      by_cases top : below = []
      · rw [top, List.append_nil] at standing
        exact ⟨label, standing⟩
      · exact ih top (by rw [standing]; exact Option.some_ne_none _)

def IsBranch (tree : Tree κ γ δ) (path : List κ) : Prop :=
  ∃ label, tree.node path = some (.branch label)

instance (tree : Tree κ γ δ) (path : List κ) : Decidable (tree.IsBranch path) :=
  match found : tree.node path with
  | none => isFalse fun ⟨_, standing⟩ => nomatch found.symm.trans standing
  | some (.branch label) => isTrue ⟨label, found⟩
  | some (.leaf _) => isFalse fun ⟨_, standing⟩ => nomatch found.symm.trans standing

/-- Nothing stands below a leaf, nor below what is missing. -/
theorem node_below_none (tree : Tree κ γ δ) {path : List κ} (bare : ¬ tree.IsBranch path) {below : List κ} (proper : below ≠ []) :
    tree.node (path ++ below) = none := by
  by_contra present
  exact bare (tree.branch_of_below proper present)

variable [DecidableEq κ]

/-- Remove the subtree at `parent/name`. -/
def delete (tree : Tree κ γ δ) (parent : List κ) (name : κ) : Tree κ γ δ where
  node path := if parent ++ [name] <+: path then none else tree.node path
  root := by
    obtain ⟨label, standing⟩ := tree.root
    exact ⟨label, by simpa using standing⟩
  closed path last present := by
    split at present
    · exact absurd rfl present
    · rename_i outside
      obtain ⟨label, standing⟩ := tree.closed path last present
      have above : ¬ parent ++ [name] <+: path :=
        fun under => outside (under.trans (List.prefix_append _ _))
      exact ⟨label, by rw [if_neg above]; exact standing⟩

/-- Move the subtree at `source` to `parent/name`, which must be free. -/
def move? (tree : Tree κ γ δ) (source parent : List κ) (name : κ) : Option (Tree κ γ δ) :=
  if free : tree.node source ≠ none ∧ tree.node (parent ++ [name]) = none ∧
      tree.IsBranch parent ∧ ¬ source <+: parent ++ [name] then
    some {
      node := fun path =>
        if parent ++ [name] <+: path then
          tree.node (source ++ path.drop (parent ++ [name]).length)
        else if source <+: path then none
        else tree.node path
      root := by
        obtain ⟨label, standing⟩ := tree.root
        have notRoot : ¬ source <+: [] := fun under => free.2.2.2 (under.trans List.nil_prefix)
        have notTarget : ¬ parent ++ [name] <+: [] := by simp
        exact ⟨label, by rw [if_neg notTarget, if_neg notRoot]; exact standing⟩
      closed := by
        obtain ⟨_, _, ⟨label, within⟩, apart⟩ := free
        intro path last present
        have away : ¬ source <+: parent :=
          fun under => apart (under.trans (List.prefix_append _ _))
        by_cases arrived : parent ++ [name] <+: path ++ [last]
        · rw [if_pos arrived] at present
          rcases List.prefix_concat_iff.mp arrived with whole | inside
          · obtain ⟨rfl, _⟩ := List.append_inj' whole rfl
            have notTarget : ¬ parent ++ [name] <+: parent := by
              intro under
              have := under.length_le
              simp at this
            exact ⟨label, by rw [if_neg notTarget, if_neg away]; exact within⟩
          · rw [List.drop_append_of_le_length inside.length_le, ← List.append_assoc] at present
            obtain ⟨label, standing⟩ := tree.closed _ _ present
            exact ⟨label, by rw [if_pos inside]; exact standing⟩
        · rw [if_neg arrived] at present
          have notTarget : ¬ parent ++ [name] <+: path :=
            fun under => arrived (under.trans (List.prefix_append _ _))
          split at present
          · exact absurd rfl present
          · rename_i outside
            have notSource : ¬ source <+: path :=
              fun under => outside (under.trans (List.prefix_append _ _))
            obtain ⟨label, standing⟩ := tree.closed path last present
            exact ⟨label, by rw [if_neg notTarget, if_neg notSource]; exact standing⟩ }
  else none

/-- Make `path` a branch, with the branches it stands in where they are missing. -/
def grow? (tree : Tree κ γ δ) (path : List κ) (label : γ) : Option (Tree κ γ δ) :=
  if free : ∀ above ∈ path.inits, tree.node above = none ∨ tree.IsBranch above then
    some {
      node := fun other =>
        if other <+: path ∧ tree.node other = none then some (.branch label)
        else tree.node other
      root := by
        obtain ⟨rootLabel, standing⟩ := tree.root
        exact ⟨rootLabel, by simp [standing]⟩
      closed := by
        intro other last present
        have standing : other <+: path ∨ ∃ found, tree.node other = some (.branch found) := by
          split at present
          · rename_i grown
            exact .inl ((List.prefix_append _ _).trans grown.1)
          · exact .inr (tree.closed other last present)
        by_cases missing : tree.node other = none
        · rcases standing with above | ⟨found, standing⟩
          · exact ⟨label, by rw [if_pos ⟨above, missing⟩]⟩
          · rw [missing] at standing
            cases standing
        · rw [if_neg (fun both => missing both.2)]
          rcases standing with above | standing
          · exact (free other ((List.mem_inits _ _).mpr above)).resolve_left missing
          · exact standing }
  else none

/-- Place a leaf at `path/name`, which must be free. -/
def put? (tree : Tree κ γ δ) (path : List κ) (name : κ) (content : δ) : Option (Tree κ γ δ) :=
  if free : tree.IsBranch path ∧ tree.node (path ++ [name]) = none then
    some {
      node := fun other =>
        if other = path ++ [name] then some (.leaf content) else tree.node other
      root := by
        obtain ⟨label, standing⟩ := tree.root
        exact ⟨label, by simp [standing]⟩
      closed := by
        intro other last present
        by_cases placed : other ++ [last] = path ++ [name]
        · obtain ⟨rfl, _⟩ := List.append_inj' placed rfl
          obtain ⟨label, standing⟩ := free.1
          exact ⟨label, by simp [standing]⟩
        · rw [if_neg placed] at present
          obtain ⟨label, standing⟩ := tree.closed other last present
          have notLeaf : other ≠ path ++ [name] := by
            intro same
            rw [same, free.2] at standing
            cases standing
          exact ⟨label, by rw [if_neg notLeaf]; exact standing⟩ }
  else none

/-- Place a leaf at `path/name`, in place of the leaf that stands there if one does. -/
def overwrite? (tree : Tree κ γ δ) (path : List κ) (name : κ) (content : δ) :
    Option (Tree κ γ δ) :=
  if free : tree.IsBranch path ∧ ¬ tree.IsBranch (path ++ [name]) then
    some {
      node := fun other =>
        if other = path ++ [name] then some (.leaf content) else tree.node other
      root := by
        obtain ⟨label, standing⟩ := tree.root
        exact ⟨label, by simp [standing]⟩
      closed := by
        intro other last present
        by_cases placed : other ++ [last] = path ++ [name]
        · obtain ⟨rfl, _⟩ := List.append_inj' placed rfl
          obtain ⟨label, standing⟩ := free.1
          exact ⟨label, by simp [standing]⟩
        · rw [if_neg placed] at present
          obtain ⟨label, standing⟩ := tree.closed other last present
          have notLeaf : other ≠ path ++ [name] := by
            rintro rfl
            exact free.2 ⟨label, standing⟩
          exact ⟨label, by rw [if_neg notLeaf]; exact standing⟩ }
  else none

/-- Replace the label of a branch. -/
def relabel (tree : Tree κ γ δ) (path : List κ) (update : γ → γ) : Tree κ γ δ where
  node other :=
    if other = path then
      match tree.node other with
      | some (.branch label) => some (.branch (update label))
      | standing => standing
    else tree.node other
  root := by
    obtain ⟨label, standing⟩ := tree.root
    by_cases top : [] = path
    · exact ⟨update label, by simp [← top, standing]⟩
    · exact ⟨label, by simp [top, standing]⟩
  closed other last present := by
    have before : tree.node (other ++ [last]) ≠ none := by
      intro missing
      apply present
      simp [missing]
    obtain ⟨label, standing⟩ := tree.closed other last before
    by_cases here : other = path
    · exact ⟨update label, by rw [if_pos here, standing]⟩
    · exact ⟨label, by rw [if_neg here]; exact standing⟩

/-! ## What the operations change -/

variable {tree after : Tree κ γ δ} {source parent path other : List κ} {name : κ} {label : γ}
  {content : δ}

theorem node_delete (outside : ¬ parent ++ [name] <+: other) :
    (tree.delete parent name).node other = tree.node other := by
  simp [delete, outside]

theorem node_delete_under (under : parent ++ [name] <+: other) :
    (tree.delete parent name).node other = none := by
  simp [delete, under]

theorem move?_some (run : tree.move? source parent name = some after) :
    (tree.node source ≠ none ∧ tree.node (parent ++ [name]) = none ∧ tree.IsBranch parent ∧
        ¬ source <+: parent ++ [name]) ∧
      after.node = fun path =>
        if parent ++ [name] <+: path then
          tree.node (source ++ path.drop (parent ++ [name]).length)
        else if source <+: path then none
        else tree.node path := by
  unfold move? at run
  split at run
  · rename_i free
    cases run
    exact ⟨free, rfl⟩
  · cases run

theorem node_move_under (run : tree.move? source parent name = some after) (below : List κ) :
    after.node (parent ++ [name] ++ below) = tree.node (source ++ below) := by
  rw [(move?_some run).2]
  simp only [if_pos (List.prefix_append _ _), List.drop_left]

theorem node_move_source (run : tree.move? source parent name = some after)
    (under : source <+: other) (outside : ¬ parent ++ [name] <+: other) :
    after.node other = none := by
  rw [(move?_some run).2]
  simp only [if_neg outside, if_pos under]

theorem node_move_outside (run : tree.move? source parent name = some after)
    (notSource : ¬ source <+: other) (notTarget : ¬ parent ++ [name] <+: other) :
    after.node other = tree.node other := by
  rw [(move?_some run).2]
  simp only [if_neg notTarget, if_neg notSource]

theorem move?_total (present : tree.node source ≠ none)
    (free : tree.node (parent ++ [name]) = none) (within : tree.IsBranch parent)
    (apart : ¬ source <+: parent ++ [name]) : ∃ after, tree.move? source parent name = some after := by
  unfold move?
  rw [dif_pos ⟨present, free, within, apart⟩]
  exact ⟨_, rfl⟩

theorem grow?_some (run : tree.grow? path label = some after) :
    after.node = fun other =>
      if other <+: path ∧ tree.node other = none then some (.branch label)
      else tree.node other := by
  unfold grow? at run
  split at run
  · cases run
    rfl
  · cases run

theorem put?_some (run : tree.put? path name content = some after) :
    (tree.IsBranch path ∧ tree.node (path ++ [name]) = none) ∧
      after.node = fun other =>
        if other = path ++ [name] then some (.leaf content) else tree.node other := by
  unfold put? at run
  split at run
  · rename_i free
    cases run
    exact ⟨free, rfl⟩
  · cases run

theorem overwrite?_some (run : tree.overwrite? path name content = some after) :
    (tree.IsBranch path ∧ ¬ tree.IsBranch (path ++ [name])) ∧
      after.node = fun other =>
        if other = path ++ [name] then some (.leaf content) else tree.node other := by
  unfold overwrite? at run
  split at run
  · rename_i free
    cases run
    exact ⟨free, rfl⟩
  · cases run

theorem node_relabel_of_ne (update : γ → γ) (elsewhere : other ≠ path) :
    (tree.relabel path update).node other = tree.node other := by
  simp [relabel, elsewhere]

theorem node_relabel_self (update : γ → γ) (standing : tree.node path = some (.branch label)) :
    (tree.relabel path update).node path = some (.branch (update label)) := by
  simp [relabel, standing]

end Tree

end PathTrees
