import CodeAtlas.Proofs.Syntax.Apart
import CodeAtlas.Proofs.Syntax.Walk
import CodeAtlas.Registry
/-!
Decision points of callables. The walk through a tree meets its places one by one
(`map_place_encounters`), and in every grammar of the registry the body of a callable lies below its
node (`bodyBelow_classify`). So the decision points of callables none of which is declared inside
another one make up a part of those of the file (`decisions_apart`).
-/
namespace CodeAtlas.Grammar

open Syntax

/-! ### What the walk meets -/

section Walk

variable (g : Grammar) (source : Source)

-- What is met does not depend on the scopes that are open.
mutual
/-- The walk meets the places of a tree in order, whatever else it does. -/
theorem map_place_tour (st : Scope × List Encounter) (trail : List Crumb) (n : Node) :
    (n.tour (g.step source) st trail).2.map Encounter.place =
      (n.placesFrom trail).reverse ++ st.2.map Encounter.place := by
  obtain ⟨label, children⟩ := n
  let entered := (g.step source st ⟨.mk label children, trail⟩ .enter).1
  have hentered : entered.2.map Encounter.place =
      ⟨.mk label children, trail⟩ :: st.2.map Encounter.place := rfl
  have hchildren := map_place_tours entered (.mk label children) [] trail children
  rw [Node.placesFrom, List.reverse_cons, List.append_assoc, List.singleton_append, ← hentered,
    ← hchildren]
  rfl

theorem map_place_tours (st : Scope × List Encounter) (parent : Node) (before : List Node)
    (trail : List Crumb) (ns : List Node) :
    (Node.tours (g.step source) st parent before trail ns).2.map Encounter.place =
      (Node.placesAmong parent before trail ns).reverse ++ st.2.map Encounter.place := by
  cases ns with
  | nil => rfl
  | cons n after =>
    rw [Node.tours, map_place_tours, map_place_tour, Node.placesAmong, List.reverse_append,
      List.append_assoc]
end

/-- The walk meets the places of a tree in their order. -/
theorem map_place_encounters (root : Node) :
    (g.encounters source root).map Encounter.place = root.places := by
  have htour := map_place_tour g source (Scope.file, []) [] root
  rw [encounters, root.traverse_eq_tour, List.map_reverse, htour, List.map_nil, List.append_nil,
    List.reverse_reverse]
  rfl

/-- What was met declares what the grammar sees in it. -/
def Classified (met : List Encounter) : Prop :=
  ∀ e ∈ met, e.declaration = g.declaration? source e.scope e.place

theorem classified_step (st : Scope × List Encounter) (place : Cursor) (visit : Visit)
    (h : g.Classified source st.2) : g.Classified source (g.step source st place visit).1.2 := by
  cases visit with
  | enter => exact List.forall_mem_cons.mpr ⟨rfl, h⟩
  | leave => exact h

theorem classified_encounters (root : Node) : g.Classified source (g.encounters source root) := by
  have htraverse := Node.traverse_keeps (P := fun st => g.Classified source st.2)
    (g.classified_step source) (s := (Scope.file, [])) (fun _ he => absurd he List.not_mem_nil) root
  intro e he
  exact htraverse e (List.mem_reverse.mp he)

end Walk

/-! ### Bodies -/

/-- The body of what is declared, if there is one, lies below the node. -/
def BodyBelow (node : Node) (o : Option Declared) : Prop :=
  ∀ d ∈ o, ∀ body ∈ d.body, body.subtree.Sublist node.subtree

namespace BodyBelow

variable {node : Node}

theorem none : BodyBelow node none := by
  intro d hd
  cases hd

theorem some {d : Declared} (h : ∀ body ∈ d.body, body.subtree.Sublist node.subtree) :
    BodyBelow node (some d) := by
  rintro _ ⟨⟩
  exact h

theorem map {α : Type} {o : Option α} {f : α → Declared}
    (h : ∀ a, ∀ body ∈ (f a).body, body.subtree.Sublist node.subtree) :
    BodyBelow node (o.map f) := by
  intro d hd
  obtain ⟨a, -, rfl⟩ := Option.map_eq_some_iff.mp hd
  exact h a

theorem bind {α : Type} {o : Option α} {f : α → Option Declared}
    (h : ∀ a ∈ o, BodyBelow node (f a)) : BodyBelow node (o.bind f) := by
  intro d hd
  obtain ⟨a, ha, hf⟩ := Option.mem_bind_iff.mp hd
  exact h a ha d hf

theorem ite {c : Prop} [Decidable c] {o o' : Option Declared} (h : BodyBelow node o)
    (h' : BodyBelow node o') : BodyBelow node (if c then o else o') := by
  split
  · exact h
  · exact h'

end BodyBelow

/-- The child in the role of a body lies below the node. -/
theorem body_child {node : Node} : ∀ body ∈ node.child? "body", body.subtree.Sublist node.subtree :=
  fun _ h => Node.subtree_child?_sublist h

theorem body_of_child {node body : Node} (h : node.child? "body" = some body) :
    ∀ b ∈ some body, b.subtree.Sublist node.subtree := by
  rintro _ ⟨⟩
  exact body_child body h

theorem no_body {node : Node} : ∀ body ∈ (none : Option Node), body.subtree.Sublist node.subtree :=
  fun _ h => absurd h (Option.not_mem_none _)

variable (source : Source) (scope : Scope) (place : Cursor)

theorem Python.bodyBelow_classify : BodyBelow place.node (Python.classify source scope place) := by
  unfold Python.classify
  dsimp only
  split
  · exact .map fun _ => body_child
  · exact .map fun _ => body_child
  · refine .ite .none ?_
    split
    · exact .ite (.some no_body) .none
    · exact .none
  · exact .none

theorem Rust.bodyBelow_classify : BodyBelow place.node (Rust.classify source scope place) := by
  unfold Rust.classify
  dsimp only
  refine .ite (.map fun _ => body_child) ?_
  split
  · exact .some body_child
  · exact .none

theorem Script.bodyBelow_classifyVariable (node : Node) :
    BodyBelow node (Script.classifyVariable source scope node) := by
  unfold Script.classifyVariable
  split
  · exact .none
  · refine .ite .none ?_
    split
    · rename_i value hvalue
      have hchild := Node.subtree_child?_sublist (Option.mem_filter_iff.mp hvalue).1
      exact .some fun body hbody => (body_child body hbody).trans hchild
    · exact .ite (.some no_body) .none

theorem Script.bodyBelow_classify : BodyBelow place.node (Script.classify source scope place) := by
  unfold Script.classify
  dsimp only
  split <;> first
    | exact .none
    | exact .map fun _ => body_child
    | exact .map fun _ => no_body
    | exact Script.bodyBelow_classifyVariable source scope place.node

theorem Script.bodyBelow_classifyTyped :
    BodyBelow place.node (Script.classifyTyped source scope place) := by
  unfold Script.classifyTyped
  dsimp only
  split
  · exact .map fun _ => body_child
  · exact Script.bodyBelow_classify source scope place

/-- The body of a Go declaration is a part of it. -/
theorem Go.bodyBelow_classify : BodyBelow place.node (Go.classify source scope place) := by
  have htype : ∀ node, BodyBelow node (Go.classifyType source node) := by
    intro node
    unfold Go.classifyType
    split
    · rename_i type name htype hname
      have hchild := Node.subtree_child?_sublist htype
      split
      · exact .some fun body hbody => (Node.subtree_childOfKind?_sublist hbody).trans hchild
      · refine .some ?_
        rintro _ ⟨⟩
        exact hchild
      · exact .some no_body
    · exact .none
  unfold Go.classify
  dsimp only
  split
  · exact .map fun _ => body_child
  · exact .map fun _ => body_child
  · exact htype place.node
  · exact .map fun _ => no_body
  · exact .ite (.map fun _ => no_body) .none
  · exact .ite (.map fun _ => no_body) .none
  · exact .none

theorem Java.bodyBelow_classify : BodyBelow place.node (Java.classify source scope place) := by
  unfold Java.classify
  dsimp only
  split <;> first
    | exact .none
    | exact .map fun _ => body_child
    | exact .ite (.map fun _ => no_body) .none

theorem CFamily.bodyBelow_fst_declaration? (node : Node) :
    BodyBelow node ((CFamily.declaration? source node).map Prod.fst) := by
  unfold CFamily.declaration?
  rw [Option.map_bind]
  exact .bind fun _ _ => by
    rw [Function.comp_apply, Option.map_map]
    exact .map fun _ => no_body

/-- The body of a C declaration is a part of it. -/
theorem CFamily.bodyBelow_classify :
    BodyBelow place.node (CFamily.classify source scope place) := by
  unfold CFamily.classify
  dsimp only
  split
  · exact .map fun _ => body_child
  · split
    · exact .some (body_of_child ‹_›)
    · exact .none
  · split
    · exact .some (body_of_child ‹_›)
    · exact .none
  · split
    · exact .some (body_of_child ‹_›)
    · exact .none
  · exact .map fun _ => no_body
  · refine .ite ?_ .none
    intro d hd
    obtain ⟨⟨declared, owner⟩, hdeclared, rfl⟩ := Option.map_eq_some_iff.mp hd
    have hfst := CFamily.bodyBelow_fst_declaration? source place.node declared
    exact hfst (by rw [hdeclared]; rfl)
  · exact .ite (CFamily.bodyBelow_fst_declaration? source place.node) .none
  · exact .none

/-- The body of a C++ declaration is a part of it. -/
theorem Cpp.bodyBelow_classify : BodyBelow place.node (Cpp.classify source scope place) := by
  unfold Cpp.classify
  dsimp only
  split
  · split
    · exact .some (body_of_child ‹_›)
    · exact .none
  · split
    · exact .some (body_of_child ‹_›)
    · exact .none
  · split
    · exact .some (body_of_child ‹_›)
    · exact .none
  · exact .map fun _ => body_child
  · exact .map fun _ => no_body
  · exact .ite (CFamily.bodyBelow_fst_declaration? source place.node)
      (CFamily.bodyBelow_classify source scope place)
  · exact CFamily.bodyBelow_classify source scope place

theorem Swift.bodyBelow_classify : BodyBelow place.node (Swift.classify source scope place) := by
  unfold Swift.classify Swift.classifyType
  dsimp only
  split
  · exact .ite (.bind fun _ _ => .map fun _ => body_child) (.map fun _ => body_child)
  · exact .map fun _ => body_child
  · exact .map fun _ => body_child
  · exact .map fun _ => body_child
  · exact .some body_child
  · exact .ite (.map fun _ => no_body) .none
  · exact .none

theorem Scala.bodyBelow_classify : BodyBelow place.node (Scala.classify source scope place) := by
  unfold Scala.classify Scala.classifyValue
  dsimp only
  split
  · exact .map fun _ => body_child
  · exact .ite (.bind fun _ _ => .ite (.some no_body) .none) .none

/-- What is measured of a declaration: its body, or the whole node without one. -/
def Encounter.measured (e : Encounter) : Node :=
  (e.declaration.bind fun d => d.declared.body).getD e.place.node

def Encounter.Holds (outer inner : Encounter) : Prop :=
  outer.place ∈ inner.place.above

end CodeAtlas.Grammar

namespace CodeAtlas

open Syntax Grammar

/-- In every grammar the body of a declaration is a part of it. -/
theorem Registry.bodyBelow_classify {g : Grammar} (hg : g ∈ Registry.grammars) (source : Source)
    (scope : Scope) (place : Cursor) : BodyBelow place.node (g.classify source scope place) := by
  simp only [Registry.grammars, List.mem_cons, List.not_mem_nil, or_false] at hg
  rcases hg with rfl | rfl | rfl | rfl | rfl | rfl | rfl | rfl | rfl | rfl
  · exact Python.bodyBelow_classify source scope place
  · exact Rust.bodyBelow_classify source scope place
  · exact Script.bodyBelow_classify source scope place
  · exact Script.bodyBelow_classifyTyped source scope place
  · exact Go.bodyBelow_classify source scope place
  · exact Java.bodyBelow_classify source scope place
  · exact CFamily.bodyBelow_classify source scope place
  · exact Cpp.bodyBelow_classify source scope place
  · exact Swift.bodyBelow_classify source scope place
  · exact Scala.bodyBelow_classify source scope place

namespace Grammar

variable {g : Grammar} {source : Source} {root : Node}

/-- What is measured of a declaration lies in it. -/
theorem measured_sublist (hg : g ∈ Registry.grammars) {e : Encounter}
    (he : e ∈ g.encounters source root) : e.measured.subtree.Sublist e.place.node.subtree := by
  unfold Encounter.measured
  rw [g.classified_encounters source root e he, declaration?]
  cases hclassify : g.classify source e.scope e.place with
  | none => exact List.Sublist.refl _
  | some d =>
    have hbelow := Registry.bodyBelow_classify hg source e.scope e.place d hclassify
    change ((d.body).getD e.place.node).subtree.Sublist _
    cases hbody : d.body with
    | none => exact List.Sublist.refl _
    | some body => exact hbelow body hbody

/-- The decision points of declarations none of which lies inside another one make up a part of
those of the file. -/
theorem decisions_apart (hg : g ∈ Registry.grammars) {chosen : List Encounter}
    (hchosen : chosen.Sublist (g.encounters source root))
    (hapart : chosen.Pairwise fun outer inner => ¬ outer.Holds inner) :
    (chosen.flatMap fun e => decisionPoints g.decisions e.measured).Sublist
      (decisionPoints g.decisions root) := by
  have hplaces : (chosen.map Encounter.place).Sublist root.places := by
    rw [← g.map_place_encounters source]
    exact hchosen.map Encounter.place
  have hparts := flatMap_decisionPoints_sublist g.decisions hplaces (List.pairwise_map.mpr hapart)
  rw [List.flatMap_map] at hparts
  refine (List.Sublist.flatMap_right chosen ?_).trans hparts
  intro e he
  exact decisionPoints_sublist (measured_sublist hg (hchosen.subset he))

/-- The complexity of a callable counts the decision points of its body. -/
theorem complexity_of_symbolOf {path : Path} {e : Encounter} {s : Symbol}
    (h : g.symbolOf source path e = some s) :
    s.complexity = if s.kind.isCallable then
      some (complexityOf (decisionPoints g.decisions e.measured).length) else none := by
  unfold symbolOf at h
  split at h
  · cases h
  · rename_i d hd
    rw [Option.ite_none_left_eq_some] at h
    obtain ⟨-, hs⟩ := h
    obtain rfl := Option.some.inj hs
    have hmeasured : e.measured = d.declared.body.getD e.place.node := by
      rw [Encounter.measured, hd]
      rfl
    rw [hmeasured, ← complexity_eq]

end Grammar

end CodeAtlas
