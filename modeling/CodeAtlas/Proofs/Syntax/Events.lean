import CodeAtlas.Proofs.Syntax.Places
import CodeAtlas.Proofs.Syntax.Walk
import Mathlib.Order.Bounds.Defs
/-!
The events of a walk. Noting every visit on a walk gives the events that the recursion on the tree
gives (`traverse_noting`), all of them at places of the tree and at most two for each node. A
visitor that counts the open nodes of some kinds knows their number at every event, so the nesting
depth is the greatest number of nesting nodes on a path down from the root
(`traversal_is_recursive`).
-/
namespace CodeAtlas.Syntax

variable {σ : Type}

structure Event (σ : Type) where
  state : σ
  place : Cursor
  visit : Visit

def noting (visit : Visitor σ) : Visitor (σ × List (Event σ)) := fun (state, noted) place v =>
  let after := visit state place v
  ((after.1, ⟨state, place, v⟩ :: noted), after.2)

namespace Node

mutual
/-- The events of a tree: its root is entered, then come those of the children, if the visitor wants
them, and the root is left. -/
def events (visit : Visitor σ) (state : σ) (trail : List Crumb) : Node → List (Event σ)
  | .mk label children =>
    let here : Cursor := ⟨.mk label children, trail⟩
    let entered := visit state here .enter
    let below :=
      if entered.2 then eventsAmong visit entered.1 (.mk label children) [] trail children else []
    let inside :=
      if entered.2 then tours visit entered.1 (.mk label children) [] trail children else entered.1
    ⟨state, here, .enter⟩ :: below ++ [⟨inside, here, .leave⟩]

def eventsAmong (visit : Visitor σ) (state : σ) (parent : Node) (before : List Node)
    (trail : List Crumb) : List Node → List (Event σ)
  | [] => []
  | n :: after =>
    events visit state (⟨parent, before, after⟩ :: trail) n ++
      eventsAmong visit (tour visit state (⟨parent, before, after⟩ :: trail) n) parent (n :: before)
        trail after
end

section Noting

variable (visit : Visitor σ)

mutual
/-- Noting the events changes no state. -/
theorem tour_noting (state : σ) (noted : List (Event σ)) (trail : List Crumb) (n : Node) :
    n.tour (noting visit) (state, noted) trail =
      (n.tour visit state trail, (n.events visit state trail).reverse ++ noted) := by
  obtain ⟨label, children⟩ := n
  unfold tour events
  -- The visitor is asked once, and both recursions follow its answer.
  by_cases hdown : (visit state ⟨.mk label children, trail⟩ .enter).2 = true
  · have hinside := tours_noting (visit state ⟨.mk label children, trail⟩ .enter).1
      (⟨state, ⟨.mk label children, trail⟩, .enter⟩ :: noted) (.mk label children) [] trail children
    simp only [noting, hdown, if_true] at hinside ⊢
    simp [hinside]
  · simp [noting, hdown]

theorem tours_noting (state : σ) (noted : List (Event σ)) (parent : Node) (before : List Node)
    (trail : List Crumb) (ns : List Node) :
    tours (noting visit) (state, noted) parent before trail ns =
      (tours visit state parent before trail ns,
        (eventsAmong visit state parent before trail ns).reverse ++ noted) := by
  cases ns with
  | nil => rfl
  | cons n after =>
    rw [tours, tours, eventsAmong, tour_noting _ _ _ n, tours_noting _ _ _ _ _ after,
      List.reverse_append, List.append_assoc]
end

/-- Noting the visits of a walk gives the events of the recursion, and changes nothing else. -/
theorem traverse_noting (state : σ) (root : Node) :
    root.traverse (noting visit) (state, []) =
      (root.traverse visit state, (root.events visit state []).reverse) := by
  rw [traverse_eq_tour, traverse_eq_tour, tour_noting, List.append_nil]

mutual
/-- Events happen at places of the tree. -/
theorem place_mem_of_mem_events (state : σ) (trail : List Crumb) (n : Node) :
    ∀ e ∈ n.events visit state trail, e.place ∈ n.placesFrom trail := by
  obtain ⟨label, children⟩ := n
  intro e he
  unfold events at he
  rw [placesFrom]
  rcases List.mem_append.mp he with he | he
  · rcases List.mem_cons.mp he with rfl | he
    · exact List.mem_cons_self
    · split at he
      · exact List.mem_cons_of_mem _ (place_mem_of_mem_eventsAmong _ _ [] trail children e he)
      · exact absurd he List.not_mem_nil
  · rw [List.mem_singleton.mp he]
    exact List.mem_cons_self

theorem place_mem_of_mem_eventsAmong (state : σ) (parent : Node) (before : List Node)
    (trail : List Crumb) (ns : List Node) :
    ∀ e ∈ eventsAmong visit state parent before trail ns,
      e.place ∈ placesAmong parent before trail ns := by
  cases ns with
  | nil => exact fun e he => absurd he List.not_mem_nil
  | cons n after =>
    intro e he
    rw [eventsAmong, List.mem_append] at he
    rw [placesAmong, List.mem_append]
    rcases he with he | he
    · exact .inl (place_mem_of_mem_events state _ n e he)
    · exact .inr (place_mem_of_mem_eventsAmong _ parent (n :: before) trail after e he)
end

mutual
/-- No node is entered or left twice. -/
theorem length_events_le (state : σ) (trail : List Crumb) (n : Node) :
    (n.events visit state trail).length ≤ 2 * n.size := by
  obtain ⟨label, children⟩ := n
  unfold events
  have hchildren := length_eventsAmong_le (visit state ⟨.mk label children, trail⟩ .enter).1
    (.mk label children) [] trail children
  rw [List.length_append, List.length_cons, List.length_singleton, size]
  split
  · omega
  · rw [List.length_nil]
    omega

theorem length_eventsAmong_le (state : σ) (parent : Node) (before : List Node)
    (trail : List Crumb) (ns : List Node) :
    (eventsAmong visit state parent before trail ns).length ≤ 2 * sizes ns := by
  cases ns with
  | nil => exact Nat.zero_le _
  | cons n after =>
    have hfirst := length_events_le state (⟨parent, before, after⟩ :: trail) n
    have hrest := length_eventsAmong_le (tour visit state (⟨parent, before, after⟩ :: trail) n)
      parent (n :: before) trail after
    rw [eventsAmong, List.length_append, sizes]
    omega
end

end Noting

section Nesting

variable (kinds : List String)

def countOpen : Visitor (Nat × Nat) := fun (depth, most) c v =>
  if c.node.isOneOf kinds then
    match v with
    | .enter => ((depth + 1, max most (depth + 1)), true)
    | .leave => ((depth - 1, most), true)
  else ((depth, most), true)

def levelAbove (trail : List Crumb) : Nat :=
  (trail.map Crumb.parent).countP (·.isOneOf kinds)

def level (place : Cursor) : Nat :=
  (place.node :: place.ancestors).countP (·.isOneOf kinds)

variable {kinds}

theorem levelAbove_cons (parent : Node) (before after : List Node) (trail : List Crumb) :
    levelAbove kinds (⟨parent, before, after⟩ :: trail) = level kinds ⟨parent, trail⟩ := rfl

theorem level_of_kind {n : Node} (h : n.isOneOf kinds = true) (trail : List Crumb) :
    level kinds ⟨n, trail⟩ = levelAbove kinds trail + 1 :=
  List.countP_cons_of_pos h

theorem level_of_other {n : Node} (h : ¬ n.isOneOf kinds = true) (trail : List Crumb) :
    level kinds ⟨n, trail⟩ = levelAbove kinds trail :=
  List.countP_cons_of_neg h

/-- Entering a node raises the count to its level. -/
theorem countOpen_enter (n : Node) (trail : List Crumb) {most : Nat}
    (hmost : levelAbove kinds trail ≤ most) :
    countOpen kinds (levelAbove kinds trail, most) ⟨n, trail⟩ .enter =
      ((level kinds ⟨n, trail⟩, max most (level kinds ⟨n, trail⟩)), true) := by
  by_cases hkind : n.isOneOf kinds = true
  · rw [level_of_kind hkind]
    exact if_pos hkind
  · rw [level_of_other hkind, Nat.max_eq_left hmost]
    exact if_neg hkind

/-- Leaving a node brings the count back to what it was. -/
theorem countOpen_leave (n : Node) (trail : List Crumb) (most : Nat) :
    countOpen kinds (level kinds ⟨n, trail⟩, most) ⟨n, trail⟩ .leave =
      ((levelAbove kinds trail, most), true) := by
  by_cases hkind : n.isOneOf kinds = true
  · rw [level_of_kind hkind]
    exact if_pos hkind
  · rw [level_of_other hkind]
    exact if_neg hkind

theorem le_foldl_max (most : Nat) (levels : List Nat) : most ≤ levels.foldl max most := by
  rw [List.foldl_max]
  exact Nat.le_max_left _ _

-- The greatest count never falls below the count, so that a node of another kind changes nothing.
mutual
theorem tour_countOpen (trail : List Crumb) (n : Node) {most : Nat}
    (hmost : levelAbove kinds trail ≤ most) :
    n.tour (countOpen kinds) (levelAbove kinds trail, most) trail =
      (levelAbove kinds trail, ((n.placesFrom trail).map (level kinds)).foldl max most) := by
  obtain ⟨label, children⟩ := n
  unfold tour
  rw [countOpen_enter _ _ hmost]
  dsimp only
  rw [if_pos rfl, tours_countOpen (.mk label children) [] trail children (Nat.le_max_right _ _),
    countOpen_leave, placesFrom, List.map_cons, List.foldl_cons]

/-- Over a list of children the count comes back and the most is the highest level among them. -/
theorem tours_countOpen (parent : Node) (before : List Node) (trail : List Crumb) (ns : List Node)
    {most : Nat} (hmost : level kinds ⟨parent, trail⟩ ≤ most) :
    tours (countOpen kinds) (level kinds ⟨parent, trail⟩, most) parent before trail ns =
      (level kinds ⟨parent, trail⟩,
        ((placesAmong parent before trail ns).map (level kinds)).foldl max most) := by
  cases ns with
  | nil => rfl
  | cons n after =>
    have hfirst := tour_countOpen (⟨parent, before, after⟩ :: trail) n hmost
    rw [levelAbove_cons] at hfirst
    rw [tours, hfirst, tours_countOpen parent (n :: before) trail after
      (Nat.le_trans hmost (le_foldl_max _ _)), placesAmong, List.map_append, List.foldl_append]
end

/-- The nesting depth of a tree is the greatest level of a node in it. -/
theorem nestingDepth_isGreatest (root : Node) :
    IsGreatest {k | ∃ place ∈ root.places, level kinds place = k} (root.nestingDepth kinds) := by
  have htour : root.traverse (countOpen kinds) (0, 0) = _ :=
    (root.traverse_eq_tour _ _).trans (tour_countOpen [] root (Nat.le_refl 0))
  have hdepth : root.nestingDepth kinds = (root.places.map (level kinds)).foldl max 0 :=
    congrArg Prod.snd htour
  have hnonempty : root.places.map (level kinds) ≠ [] := by
    obtain ⟨label, children⟩ := root
    rw [places, placesFrom]
    exact List.cons_ne_nil _ _
  obtain ⟨m, hm⟩ := Option.isSome_iff_exists.mp (List.isSome_max?_of_ne_nil hnonempty)
  rw [List.foldl_max, hm, Option.getD_some, Nat.zero_max] at hdepth
  obtain ⟨hmem, hle⟩ := List.max?_eq_some_iff.mp hm
  rw [hdepth]
  refine ⟨List.mem_map.mp hmem, ?_⟩
  rintro k ⟨place, hplace, rfl⟩
  exact hle _ (List.mem_map_of_mem hplace)

variable (kinds) in
def openAt (e : Event σ) : Nat :=
  match e.visit with
  | .enter => levelAbove kinds e.place.trail
  | .leave => level kinds e.place

mutual
/-- At every event the count is that of the nodes that are open. -/
theorem count_of_mem_events (trail : List Crumb) (n : Node) {most : Nat}
    (hmost : levelAbove kinds trail ≤ most) :
    ∀ e ∈ n.events (countOpen kinds) (levelAbove kinds trail, most) trail,
      e.state.1 = openAt kinds e := by
  obtain ⟨label, children⟩ := n
  intro e he
  unfold events at he
  dsimp only at he
  rw [countOpen_enter _ _ hmost] at he
  dsimp only at he
  rw [if_pos rfl, if_pos rfl, tours_countOpen _ [] trail children (Nat.le_max_right _ _)] at he
  rcases List.mem_append.mp he with he | he
  · rcases List.mem_cons.mp he with rfl | he
    · rfl
    · exact count_of_mem_eventsAmong _ [] trail children (Nat.le_max_right _ _) e he
  · rw [List.mem_singleton.mp he]
    rfl

/-- The same over a list of children. -/
theorem count_of_mem_eventsAmong (parent : Node) (before : List Node) (trail : List Crumb)
    (ns : List Node) {most : Nat} (hmost : level kinds ⟨parent, trail⟩ ≤ most) :
    ∀ e ∈ eventsAmong (countOpen kinds) (level kinds ⟨parent, trail⟩, most) parent before trail ns,
      e.state.1 = openAt kinds e := by
  cases ns with
  | nil => exact fun e he => absurd he List.not_mem_nil
  | cons n after =>
    intro e he
    have hfirst := tour_countOpen (⟨parent, before, after⟩ :: trail) n hmost
    rw [levelAbove_cons] at hfirst
    rw [eventsAmong, hfirst, List.mem_append] at he
    rcases he with he | he
    · exact count_of_mem_events (⟨parent, before, after⟩ :: trail) n hmost e he
    · exact count_of_mem_eventsAmong parent (n :: before) trail after
        (Nat.le_trans hmost (le_foldl_max _ _)) e he
end

/-- The count is never lowered from zero. -/
theorem count_pos_of_leave (root : Node) :
    ∀ e ∈ root.events (countOpen kinds) (0, 0) [], e.visit = .leave →
      e.place.node.isOneOf kinds = true → 0 < e.state.1 := by
  intro e he hleave hkind
  rw [count_of_mem_events [] root (Nat.le_refl 0) e he, openAt, hleave]
  change 0 < level kinds ⟨e.place.node, e.place.trail⟩
  rw [level_of_kind hkind]
  exact Nat.succ_pos _

end Nesting

/-- Walking through a tree with one cursor gives the events of the recursion on the tree, in their
order, and the state that it ends in. No event lies outside the tree, and there are at most two for
each node. So the nesting depth is the greatest number of nesting nodes on a path down from the
root, and the count that it is read off is positive whenever it is lowered. -/
theorem traversal_is_recursive (visit : Visitor σ) (state : σ) (kinds : List String) (root : Node) :
    (root.traverse (noting visit) (state, [])).2.reverse = root.events visit state [] ∧
    root.traverse visit state = (root.traverse (noting visit) (state, [])).1 ∧
    root.traverse visit state = root.tour visit state [] ∧
    (∀ e ∈ root.events visit state [], e.place ∈ root.places) ∧
    (root.events visit state []).length ≤ 2 * root.size ∧
    root.nestingDepth kinds = (root.traverse (countOpen kinds) (0, 0)).2 ∧
    IsGreatest {k | ∃ place ∈ root.places, level kinds place = k} (root.nestingDepth kinds) ∧
    (∀ e ∈ root.events (countOpen kinds) (0, 0) [], e.visit = .leave →
      e.place.node.isOneOf kinds = true → 0 < e.state.1) := by
  refine ⟨?_, ?_, root.traverse_eq_tour visit state, place_mem_of_mem_events visit state [] root,
    length_events_le visit state [] root, rfl, nestingDepth_isGreatest root,
    count_pos_of_leave root⟩
  · rw [traverse_noting, List.reverse_reverse]
  · rw [traverse_noting]

/-- Where the visitor declines the children of a node, the node is left at once. -/
example :
    let leaf (id : Nat) : Node := .mk ⟨id, "block", "", true, 0, 0⟩ []
    let root : Node :=
      .mk ⟨0, "if", "", true, 0, 0⟩ [.mk ⟨1, "if", "", true, 0, 0⟩ [leaf 2], leaf 3]
    (root.events (fun met c _ => (met + 1, c.node.id != 1)) 0 []).map
        (fun e => (e.state, e.place.node.id, e.visit)) =
      [(0, 0, .enter), (1, 1, .enter), (2, 1, .leave), (3, 3, .enter), (4, 3, .leave),
        (5, 0, .leave)] := by
  decide

end Node

end CodeAtlas.Syntax
