import CodeAtlas.Syntax.Cursor
/-!
The places of a tree: its nodes in pre-order, each with the steps up from it. Everything above a
place of a tree is a place of the same tree (`mem_places_of_mem_above`).
-/
namespace CodeAtlas.Syntax

namespace Node

mutual
def placesFrom (trail : List Crumb) : Node → List Cursor
  | .mk label children =>
    ⟨.mk label children, trail⟩ :: placesAmong (.mk label children) [] trail children

def placesAmong (parent : Node) (before : List Node) (trail : List Crumb) :
    List Node → List Cursor
  | [] => []
  | n :: after =>
    placesFrom (⟨parent, before, after⟩ :: trail) n ++
      placesAmong parent (n :: before) trail after
end

def places (root : Node) : List Cursor :=
  root.placesFrom []

mutual
theorem map_node_placesFrom (trail : List Crumb) (n : Node) :
    (n.placesFrom trail).map Cursor.node = n.subtree := by
  obtain ⟨label, children⟩ := n
  rw [placesFrom, subtree, List.map_cons, map_node_placesAmong _ _ _ children]

theorem map_node_placesAmong (parent : Node) (before : List Node) (trail : List Crumb)
    (ns : List Node) : (placesAmong parent before trail ns).map Cursor.node = subtrees ns := by
  cases ns with
  | nil => rfl
  | cons n ns =>
    rw [placesAmong, subtrees, List.map_append, map_node_placesFrom _ n,
      map_node_placesAmong _ _ _ ns]
end

/-- The nodes at the places of a tree are those of the tree. -/
theorem map_node_places (root : Node) : root.places.map Cursor.node = root.subtree :=
  root.map_node_placesFrom []

end Node

namespace Cursor

def along : List Crumb → List Cursor
  | [] => []
  | crumb :: trail => ⟨crumb.parent, trail⟩ :: along trail

def above (c : Cursor) : List Cursor :=
  along c.trail

/-- The nodes above a place are its ancestors. -/
theorem map_node_above (c : Cursor) : c.above.map Cursor.node = c.ancestors := by
  obtain ⟨n, trail⟩ := c
  induction trail with
  | nil => rfl
  | cons crumb trail ih => exact congrArg (crumb.parent :: ·) ih

end Cursor

namespace Node

-- What stands above a place below a node is below that node too, or it is above the node.
mutual
/-- What stands above a place is a place of the tree, or stands above the tree. -/
theorem above_placesFrom (trail : List Crumb) (n : Node) :
    ∀ c ∈ n.placesFrom trail, c.above ⊆ n.placesFrom trail ++ Cursor.along trail := by
  obtain ⟨label, children⟩ := n
  intro c hc
  rw [placesFrom] at hc ⊢
  rcases List.mem_cons.mp hc with rfl | hc
  · exact List.subset_append_right _ _
  · intro a ha
    have hplace := above_placesAmong (.mk label children) [] trail children c hc ha
    rcases List.mem_append.mp hplace with hbelow | hup
    · exact List.mem_append_left _ (List.mem_cons_of_mem _ hbelow)
    · rcases List.mem_cons.mp hup with rfl | hup
      · exact List.mem_append_left _ List.mem_cons_self
      · exact List.mem_append_right _ hup

/-- The same over a list of children, with their parent. -/
theorem above_placesAmong (parent : Node) (before : List Node) (trail : List Crumb)
    (ns : List Node) : ∀ c ∈ placesAmong parent before trail ns,
      c.above ⊆ placesAmong parent before trail ns ++ ⟨parent, trail⟩ :: Cursor.along trail := by
  cases ns with
  | nil => exact fun c hc => absurd hc List.not_mem_nil
  | cons n after =>
    intro c hc a ha
    rw [placesAmong] at hc ⊢
    rw [List.append_assoc, List.mem_append]
    rcases List.mem_append.mp hc with hc | hc
    · have hplace := above_placesFrom (⟨parent, before, after⟩ :: trail) n c hc ha
      rw [List.mem_append] at hplace
      exact hplace.imp_right (List.mem_append_right _)
    · exact .inr (above_placesAmong parent (n :: before) trail after c hc ha)
end

/-- What stands above a place of a tree is a place of the tree. -/
theorem mem_places_of_mem_above {root : Node} {c a : Cursor} (hc : c ∈ root.places)
    (ha : a ∈ c.above) : a ∈ root.places := by
  have hplace := root.above_placesFrom [] c hc ha
  rwa [Cursor.along, List.append_nil] at hplace

end Node

end CodeAtlas.Syntax
