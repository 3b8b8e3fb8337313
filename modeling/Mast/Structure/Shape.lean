import Mast.Structure.Tree

/-!
# The shape of the split tree

Where a split puts the new leaf, and which node a removal takes out. The nodes are listed
with all their data, so that the lists say what is kept.

Results:
1. `remove_splitLeaf`: a removal undoes a split.
2. `split_and_remove`: what both operations do to the leaves and the nodes, in their order.
-/

namespace Mast

namespace SplitTree

/-- The data of a split node. -/
structure Node where
  id : SplitId
  direction : SplitDirection
  ratio : F64
deriving DecidableEq

/-- The split nodes, parents first. -/
def nodes : SplitTree → List Node
  | leaf _ => []
  | split id direction ratio first second =>
    ⟨id, direction, ratio⟩ :: (first.nodes ++ second.nodes)

/-- The node has the leaf as one of its children. -/
def IsParent (node : Node) (pane : PaneId) : SplitTree → Prop
  | leaf _ => False
  | split id direction ratio first second =>
    (node = ⟨id, direction, ratio⟩ ∧ (first = leaf pane ∨ second = leaf pane)) ∨
      first.IsParent node pane ∨ second.IsParent node pane

/-- A split puts the new leaf behind its target and adds its node; removing the new leaf
gives the tree back. -/
structure Splits (t : SplitTree) (target : PaneId) (direction : SplitDirection)
    (newPane : PaneId) (splitId : SplitId) (t' : SplitTree) : Prop where
  leaves : ∃ left right, t.leaves = left ++ target :: right ∧
    t'.leaves = left ++ target :: newPane :: right
  nodes : ∃ before after, t.nodes = before ++ after ∧
    t'.nodes = before ++ ⟨splitId, direction, F64.half⟩ :: after
  undone : t'.remove newPane = (t, true)

/-- A removal takes the leaf out and one node, its parent. -/
structure Removes (t : SplitTree) (pane : PaneId) (t' : SplitTree) : Prop where
  leaves : ∃ left right, t.leaves = left ++ pane :: right ∧ t'.leaves = left ++ right
  nodes : ∃ before node after, t.IsParent node pane ∧
    t.nodes = before ++ node :: after ∧ t'.nodes = before ++ after

variable {t first second : SplitTree} {target pane newPane : PaneId} {id splitId : SplitId}
  {d direction : SplitDirection} {ratio : F64}

/-! ## Splitting -/

theorem splitLeaf_first (h : target ∈ first.leaves) :
    splitLeaf target direction newPane splitId (split id d ratio first second) =
      (split id d ratio (splitLeaf target direction newPane splitId first).1 second, true) := by
  have hfound : (splitLeaf target direction newPane splitId first).2 = true :=
    splitLeaf_found.mpr h
  simp only [splitLeaf, if_pos hfound]

theorem splitLeaf_second (h : target ∉ first.leaves) :
    splitLeaf target direction newPane splitId (split id d ratio first second) =
      (split id d ratio first (splitLeaf target direction newPane splitId second).1,
        (splitLeaf target direction newPane splitId second).2) := by
  have hfound : (splitLeaf target direction newPane splitId first).2 = false :=
    Bool.eq_false_iff.mpr fun hfound => h (splitLeaf_found.mp hfound)
  have hkept := splitLeaf_of_not_found hfound
  simp only [splitLeaf, hfound, hkept, Bool.false_eq_true, if_false]

/-- The new leaf stands right behind its target. -/
theorem splitLeaf_behind (newPane : PaneId) (direction : SplitDirection) (splitId : SplitId)
    (h : target ∈ t.leaves) : ∃ left right, t.leaves = left ++ target :: right ∧
      (splitLeaf target direction newPane splitId t).1.leaves =
        left ++ target :: newPane :: right := by
  induction t with
  | leaf pane =>
    obtain rfl : target = pane := List.mem_singleton.mp h
    refine ⟨[], [], rfl, ?_⟩
    rw [splitLeaf, if_pos rfl]
    rfl
  | split id d ratio first second ih₁ ih₂ =>
    by_cases hfirst : target ∈ first.leaves
    · obtain ⟨left, right, hleaves, hsplit⟩ := ih₁ hfirst
      refine ⟨left, right ++ second.leaves, ?_, ?_⟩
      · rw [leaves, hleaves, List.append_assoc, List.cons_append]
      · rw [splitLeaf_first hfirst, leaves, hsplit, List.append_assoc]
        rfl
    · obtain ⟨left, right, hleaves, hsplit⟩ :=
        ih₂ ((List.mem_append.mp h).resolve_left hfirst)
      refine ⟨first.leaves ++ left, right, ?_, ?_⟩
      · rw [leaves, hleaves, List.append_assoc]
      · rw [splitLeaf_second hfirst, leaves, hsplit, List.append_assoc]

/-- The nodes stay as they are, and one is added. -/
theorem splitLeaf_nodes (newPane : PaneId) (direction : SplitDirection) (splitId : SplitId)
    (h : target ∈ t.leaves) : ∃ before after, t.nodes = before ++ after ∧
      (splitLeaf target direction newPane splitId t).1.nodes =
        before ++ ⟨splitId, direction, F64.half⟩ :: after := by
  induction t with
  | leaf pane =>
    obtain rfl : target = pane := List.mem_singleton.mp h
    refine ⟨[], [], rfl, ?_⟩
    rw [splitLeaf, if_pos rfl]
    rfl
  | split id d ratio first second ih₁ ih₂ =>
    by_cases hfirst : target ∈ first.leaves
    · obtain ⟨before, after, hnodes, hsplit⟩ := ih₁ hfirst
      refine ⟨⟨id, d, ratio⟩ :: before, after ++ second.nodes, ?_, ?_⟩
      · rw [nodes, hnodes, List.append_assoc, List.cons_append]
      · rw [splitLeaf_first hfirst, nodes, hsplit, List.append_assoc]
        rfl
    · obtain ⟨before, after, hnodes, hsplit⟩ :=
        ih₂ ((List.mem_append.mp h).resolve_left hfirst)
      refine ⟨⟨id, d, ratio⟩ :: (first.nodes ++ before), after, ?_, ?_⟩
      · rw [nodes, hnodes, List.cons_append, List.append_assoc]
      · rw [splitLeaf_second hfirst, nodes, hsplit, List.cons_append, List.append_assoc]

/-! ## Removing -/

theorem mem_of_removed (h : (remove pane t).2 = true) : pane ∈ t.leaves := by
  rw [(remove_leaves h).mem_iff]
  exact List.mem_cons_self

theorem remove_absent (h : pane ∉ t.leaves) : remove pane t = (t, false) := by
  have hflag : (remove pane t).2 = false := Bool.eq_false_iff.mpr fun hf => h (mem_of_removed hf)
  exact Prod.ext (remove_of_not_found hflag) hflag

theorem ne_leaf (h : pane ∉ t.leaves) : t ≠ leaf pane := by
  rintro rfl
  exact h List.mem_cons_self

/-- A tree that was split is no leaf. -/
theorem splitLeaf_ne_leaf (h : target ∈ t.leaves) :
    (splitLeaf target direction newPane splitId t).1 ≠ leaf pane := by
  obtain ⟨left, right, -, hsplit⟩ := splitLeaf_behind newPane direction splitId h
  intro heq
  have hlength := congrArg List.length hsplit
  rw [heq, List.length_append] at hlength
  simp only [leaves, List.length_cons, List.length_nil] at hlength
  omega

/-- A removal undoes a split. -/
theorem remove_splitLeaf (htarget : target ∈ t.leaves) (hnew : newPane ∉ t.leaves) :
    remove newPane (splitLeaf target direction newPane splitId t).1 = (t, true) := by
  induction t with
  | leaf pane =>
    obtain rfl : target = pane := List.mem_singleton.mp htarget
    have hne : (leaf target) ≠ leaf newPane := ne_leaf hnew
    rw [splitLeaf, if_pos rfl, remove, if_neg hne, if_pos rfl]
  | split id d ratio first second ih₁ ih₂ =>
    rw [leaves, List.mem_append, not_or] at hnew
    by_cases hfirst : target ∈ first.leaves
    · have ih := ih₁ hfirst hnew.1
      rw [splitLeaf_first hfirst, remove, if_neg (splitLeaf_ne_leaf hfirst),
        if_neg (ne_leaf hnew.2), ih]
      rfl
    · have hsecond := (List.mem_append.mp htarget).resolve_left hfirst
      have ih := ih₂ hsecond hnew.2
      rw [splitLeaf_second hfirst, remove, if_neg (ne_leaf hnew.1),
        if_neg (splitLeaf_ne_leaf hsecond), remove_absent hnew.1, ih]
      rfl

/-- The leaf goes, and of the nodes its parent. -/
theorem removes_of_found (h : (remove pane t).2 = true) : t.Removes pane (remove pane t).1 := by
  induction t with
  | leaf p => cases h
  | split id d ratio first second ih₁ ih₂ =>
    simp only [remove] at h ⊢
    split
    · next hfirst =>
      -- the sibling takes the place of the parent
      refine ⟨⟨[], second.leaves, ?_, rfl⟩, ⟨[], ⟨id, d, ratio⟩, second.nodes, ?_, ?_, rfl⟩⟩
      · rw [hfirst]
        rfl
      · exact .inl ⟨rfl, .inl hfirst⟩
      · rw [hfirst]
        rfl
    split
    · next hsecond =>
      refine ⟨⟨first.leaves, [], ?_, (List.append_nil _).symm⟩,
        ⟨[], ⟨id, d, ratio⟩, first.nodes, ?_, ?_, rfl⟩⟩
      · rw [hsecond]
        rfl
      · exact .inl ⟨rfl, .inr hsecond⟩
      · rw [hsecond, nodes, nodes, List.append_nil]
        rfl
    next hfirst hsecond =>
    rw [if_neg hfirst, if_neg hsecond] at h
    split
    · next hfound =>
      obtain ⟨⟨left, right, hleaves, hleft⟩, before, node, after, hparent, hnodes, hrest⟩ :=
        ih₁ hfound
      refine ⟨⟨left, right ++ second.leaves, ?_, ?_⟩,
        ⟨⟨id, d, ratio⟩ :: before, node, after ++ second.nodes, .inr (.inl hparent), ?_, ?_⟩⟩
      · rw [leaves, hleaves, List.append_assoc, List.cons_append]
      · rw [leaves, hleft, List.append_assoc]
      · rw [nodes, hnodes, List.append_assoc, List.cons_append, List.cons_append]
      · rw [nodes, hrest, List.append_assoc, List.cons_append]
    · next hfound =>
      rw [if_neg hfound] at h
      obtain ⟨⟨left, right, hleaves, hleft⟩, before, node, after, hparent, hnodes, hrest⟩ :=
        ih₂ h
      have hkept := remove_of_not_found (Bool.eq_false_iff.mpr hfound)
      refine ⟨⟨first.leaves ++ left, right, ?_, ?_⟩,
        ⟨⟨id, d, ratio⟩ :: (first.nodes ++ before), node, after, .inr (.inr hparent), ?_, ?_⟩⟩
      · rw [leaves, hleaves, List.append_assoc]
      · rw [hkept, leaves, hleft, List.append_assoc]
      · rw [nodes, hnodes, List.cons_append, List.append_assoc]
      · rw [hkept, nodes, hrest, List.cons_append, List.append_assoc]

/-- A split puts the new leaf behind its target, and removing it again gives the tree back.
A removal takes out the leaf and its parent, and an operation that fails changes nothing. -/
theorem split_and_remove (t : SplitTree) :
    (∀ target ∈ t.leaves, ∀ newPane ∉ t.leaves, ∀ direction, ∀ splitId ∉ t.splitIds,
      ∃ t', splitLeaf target direction newPane splitId t = (t', true) ∧
        t.Splits target direction newPane splitId t') ∧
    (2 ≤ t.leaves.length → ∀ pane ∈ t.leaves,
      ∃ t', remove pane t = (t', true) ∧ t.Removes pane t') ∧
    (∀ target direction newPane splitId t',
      splitLeaf target direction newPane splitId t = (t', false) → t' = t) ∧
    ∀ pane t', remove pane t = (t', false) → t' = t := by
  refine ⟨fun target htarget newPane hnew direction splitId _ => ?_, fun hsize pane hpane => ?_,
    fun target direction newPane splitId t' h => ?_, fun pane t' h => ?_⟩
  · refine ⟨_, Prod.ext rfl (splitLeaf_found.mpr htarget), ?_⟩
    exact ⟨splitLeaf_behind newPane direction splitId htarget,
      splitLeaf_nodes newPane direction splitId htarget, remove_splitLeaf htarget hnew⟩
  · have hne : t ≠ leaf pane := by
      rintro rfl
      exact absurd hsize (Nat.not_le.mpr Nat.one_lt_two)
    have hfound := remove_found hpane hne
    exact ⟨_, Prod.ext rfl hfound, removes_of_found hfound⟩
  · have hkept := splitLeaf_of_not_found (congrArg Prod.snd h)
    rw [h] at hkept
    exact hkept
  · have hkept := remove_of_not_found (congrArg Prod.snd h)
    rw [h] at hkept
    exact hkept

end SplitTree

end Mast
