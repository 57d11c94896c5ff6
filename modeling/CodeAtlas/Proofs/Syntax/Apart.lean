import CodeAtlas.Proofs.Syntax.Places
import CodeAtlas.Syntax.Query
import Mathlib.Data.List.Flatten
/-!
Parts of a tree. The subtrees of places none of which lies above another one make up a part of the
tree, in its order and without repetition (`flatMap_subtree_sublist`), so that no node, and no
decision point, belongs to two of them.
-/
namespace CodeAtlas.Syntax

namespace Node

theorem subtree_sublist_of_mem {n : Node} {ns : List Node} (h : n ∈ ns) :
    n.subtree.Sublist (subtrees ns) := by
  induction ns with
  | nil => cases h
  | cons m ns ih =>
    rw [subtrees]
    rcases List.mem_cons.mp h with rfl | h
    · exact List.sublist_append_left _ _
    · exact (ih h).trans (List.sublist_append_right _ _)

/-- What lies below a child lies below the node. -/
theorem subtree_child?_sublist {n c : Node} {role : String} (h : n.child? role = some c) :
    c.subtree.Sublist n.subtree := by
  obtain ⟨label, children⟩ := n
  rw [subtree]
  exact (subtree_sublist_of_mem (List.mem_of_find?_eq_some h)).cons _

theorem subtree_childOfKind?_sublist {n c : Node} {kind : String}
    (h : n.childOfKind? kind = some c) : c.subtree.Sublist n.subtree := by
  obtain ⟨label, children⟩ := n
  rw [subtree]
  exact (subtree_sublist_of_mem (List.mem_of_find?_eq_some h)).cons _

mutual
/-- The places along the trail of a tree are above all places of the tree. -/
theorem along_subset_above (trail : List Crumb) (n : Node) :
    ∀ c ∈ n.placesFrom trail, Cursor.along trail ⊆ c.above := by
  obtain ⟨label, children⟩ := n
  intro c hc
  rw [placesFrom] at hc
  rcases List.mem_cons.mp hc with rfl | hc
  · exact List.Subset.refl _
  · have habove := along_subset_above_among (.mk label children) [] trail children c hc
    exact fun a ha => habove (List.mem_cons_of_mem _ ha)

theorem along_subset_above_among (parent : Node) (before : List Node) (trail : List Crumb)
    (ns : List Node) :
    ∀ c ∈ placesAmong parent before trail ns, ⟨parent, trail⟩ :: Cursor.along trail ⊆ c.above := by
  cases ns with
  | nil => exact fun c hc => absurd hc List.not_mem_nil
  | cons n after =>
    intro c hc
    rw [placesAmong] at hc
    rcases List.mem_append.mp hc with hc | hc
    · exact along_subset_above (⟨parent, before, after⟩ :: trail) n c hc
    · exact along_subset_above_among parent (n :: before) trail after c hc
end

-- Either the root of a tree is chosen, and then nothing else below it, or all that is chosen lies
-- below its children.
mutual
/-- Places of which none lies above another have subtrees that do not share nodes. -/
theorem flatMap_subtree_sublist_from (trail : List Crumb) (n : Node) (chosen : List Cursor)
    (hchosen : chosen.Sublist (n.placesFrom trail))
    (hapart : chosen.Pairwise fun a b => a ∉ b.above) :
    (chosen.flatMap fun c => c.node.subtree).Sublist n.subtree := by
  obtain ⟨label, children⟩ := n
  rw [placesFrom] at hchosen
  rcases List.sublist_cons_iff.mp hchosen with hbelow | ⟨rest, rfl, hrest⟩
  · have hchildren := flatMap_subtree_sublist_among (.mk label children) [] trail children chosen
      hbelow hapart
    rw [subtree]
    exact hchildren.cons _
  · have hnone : rest = [] := by
      apply List.eq_nil_iff_forall_not_mem.mpr
      intro c hc
      have habove := along_subset_above_among _ _ _ _ c (hrest.subset hc) List.mem_cons_self
      exact (List.pairwise_cons.mp hapart).1 c hc habove
    simp only [hnone, List.flatMap_singleton, List.Sublist.refl]

/-- The same over a list of children. -/
theorem flatMap_subtree_sublist_among (parent : Node) (before : List Node) (trail : List Crumb)
    (ns : List Node) (chosen : List Cursor)
    (hchosen : chosen.Sublist (placesAmong parent before trail ns))
    (hapart : chosen.Pairwise fun a b => a ∉ b.above) :
    (chosen.flatMap fun c => c.node.subtree).Sublist (subtrees ns) := by
  cases ns with
  | nil =>
    rw [placesAmong, List.sublist_nil] at hchosen
    rw [hchosen]
    exact List.Sublist.refl _
  | cons n after =>
    rw [placesAmong] at hchosen
    obtain ⟨first, rest, rfl, hfirst, hrest⟩ := List.sublist_append_iff.mp hchosen
    obtain ⟨hapart, hapart', -⟩ := List.pairwise_append.mp hapart
    rw [List.flatMap_append, subtrees]
    exact (flatMap_subtree_sublist_from _ n first hfirst hapart).append
      (flatMap_subtree_sublist_among parent (n :: before) trail after rest hrest hapart')
end

/-- The subtrees of places of a tree none of which lies above another one make up a part of it. -/
theorem flatMap_subtree_sublist {root : Node} {chosen : List Cursor}
    (hchosen : chosen.Sublist root.places) (hapart : chosen.Pairwise fun a b => a ∉ b.above) :
    (chosen.flatMap fun c => c.node.subtree).Sublist root.subtree :=
  flatMap_subtree_sublist_from [] root chosen hchosen hapart

end Node

def decisionPoints (rules : List DecisionRule) (root : Node) : List (Node × Decision) :=
  root.subtree.flatMap fun n => (rules.filter fun r => r.holds n).map fun r => (n, r.decision)

theorem map_snd_decisionPoints (rules : List DecisionRule) (root : Node) :
    (decisionPoints rules root).map Prod.snd = decisions rules root := by
  rw [decisionPoints, List.map_flatMap, decisions]
  simp only [List.map_map]
  rfl

theorem complexity_eq (rules : List DecisionRule) (root : Node) :
    complexity rules root = complexityOf (decisionPoints rules root).length := by
  rw [complexity, ← map_snd_decisionPoints, List.length_map]

/-- A part of a tree has a part of its decision points. -/
theorem decisionPoints_sublist {rules : List DecisionRule} {n root : Node}
    (h : n.subtree.Sublist root.subtree) :
    (decisionPoints rules n).Sublist (decisionPoints rules root) :=
  h.flatMap _

theorem flatMap_decisionPoints_sublist (rules : List DecisionRule) {root : Node}
    {chosen : List Cursor} (hchosen : chosen.Sublist root.places)
    (hapart : chosen.Pairwise fun a b => a ∉ b.above) :
    (chosen.flatMap fun c => decisionPoints rules c.node).Sublist (decisionPoints rules root) := by
  have hparts := (Node.flatMap_subtree_sublist hchosen hapart).flatMap fun n =>
    (rules.filter fun r => r.holds n).map fun r => (n, r.decision)
  rw [List.flatMap_assoc] at hparts
  exact hparts

end CodeAtlas.Syntax
