import CodeAtlas.Syntax.Traversal
/-!
What a walk does. Walking one cursor through a tree is visiting the tree by recursion: each node on
entering, then its children if the visitor wants them, and the node again on leaving
(`traverse_eq_tour`). So what each visit keeps holds when the walk is over (`traverse_keeps`).
-/
namespace CodeAtlas.Syntax

variable {σ : Type}

namespace Node

mutual
def tour (visit : Visitor σ) (state : σ) (trail : List Crumb) : Node → σ
  | .mk label children =>
    let entered := visit state ⟨.mk label children, trail⟩ .enter
    let inside :=
      if entered.2 then tours visit entered.1 (.mk label children) [] trail children else entered.1
    (visit inside ⟨.mk label children, trail⟩ .leave).1

def tours (visit : Visitor σ) (state : σ) (parent : Node) (before : List Node)
    (trail : List Crumb) : List Node → σ
  | [] => state
  | n :: after =>
    tours visit (tour visit state (⟨parent, before, after⟩ :: trail) n) parent (n :: before) trail
      after
end

end Node

namespace Cursor

def resume (visit : Visitor σ) (state : σ) (node : Node) (trail : List Crumb) : σ :=
  match climb visit state node trail with
  | (state, some d) => walk visit state d
  | (state, none) => state

/-- A step of the cursor goes down where it can and resumes the walk otherwise. -/
theorem walk_eq (visit : Visitor σ) (state : σ) (c : Cursor) :
    walk visit state c =
      match if (visit state c .enter).2 then c.firstChild? else none with
      | some d => walk visit (visit state c .enter).1 d
      | none => resume visit (visit (visit state c .enter).1 c .leave).1 c.node c.trail := by
  -- A walk goes down, or leaves the node and goes on behind it, or ends at the root.
  fun_induction walk visit state c with
  | case1 state c entered d down ih =>
    rw [dite_eq_ite] at down
    rw [down]
  | case2 state c entered down state' d on ih =>
    rw [dite_eq_ite] at down
    rw [down]
    unfold resume
    rw [on]
  | case3 state c entered down state' on =>
    rw [dite_eq_ite] at down
    rw [down]
    unfold resume
    rw [on]

theorem resume_cons (visit : Visitor σ) (state : σ) (node parent next : Node)
    (before after : List Node) (trail : List Crumb) :
    resume visit state node (⟨parent, before, next :: after⟩ :: trail) =
      walk visit state ⟨next, ⟨parent, node :: before, after⟩ :: trail⟩ := rfl

theorem resume_last (visit : Visitor σ) (state : σ) (node parent : Node) (before : List Node)
    (trail : List Crumb) :
    resume visit state node (⟨parent, before, []⟩ :: trail) =
      resume visit (visit state ⟨parent, trail⟩ .leave).1 parent trail := rfl

-- One induction on the tree and on the siblings to come: a cursor that has gone down stands at the
-- first child, and the others are in its trail.
mutual
/-- A walk visits the tree below its cursor and then walks on. -/
theorem walk_eq_tour (visit : Visitor σ) (state : σ) (trail : List Crumb) (n : Node) :
    walk visit state ⟨n, trail⟩ = resume visit (n.tour visit state trail) n trail := by
  obtain ⟨label, children⟩ := n
  rw [walk_eq]
  unfold Node.tour
  dsimp only
  by_cases hdown : (visit state ⟨.mk label children, trail⟩ .enter).2 = true
  · rw [if_pos hdown, if_pos hdown]
    cases children with
    | nil => rfl
    | cons first rest =>
      change walk visit _ ⟨first, ⟨.mk label (first :: rest), [], rest⟩ :: trail⟩ = _
      rw [walk_eq_tour visit _ _ first, resume_eq_tours visit _ _ _ _ _ rest]
      rfl
  · rw [if_neg hdown, if_neg hdown]

theorem resume_eq_tours (visit : Visitor σ) (state : σ) (node parent : Node)
    (before : List Node) (trail : List Crumb) (after : List Node) :
    resume visit state node (⟨parent, before, after⟩ :: trail) =
      resume visit (visit (Node.tours visit state parent (node :: before) trail after)
        ⟨parent, trail⟩ .leave).1 parent trail := by
  cases after with
  | nil => rw [resume_last, Node.tours]
  | cons next after =>
    rw [resume_cons, walk_eq_tour visit _ _ next, resume_eq_tours visit _ _ _ _ _ after, Node.tours]
end

end Cursor

/-- Walking through a tree is visiting it by recursion. -/
theorem Node.traverse_eq_tour (visit : Visitor σ) (state : σ) (root : Node) :
    root.traverse visit state = root.tour visit state [] :=
  Cursor.walk_eq_tour visit state [] root

section Keeps

variable {visit : Visitor σ} {P : σ → Prop}

mutual
theorem Node.tour_keeps (h : ∀ s c v, P s → P (visit s c v).1) {s : σ} (hs : P s)
    (trail : List Crumb) (n : Node) : P (n.tour visit s trail) := by
  obtain ⟨label, children⟩ := n
  have hentered := h s ⟨.mk label children, trail⟩ .enter hs
  unfold Node.tour
  refine h _ _ .leave ?_
  split
  · exact Node.tours_keeps h hentered _ _ trail children
  · exact hentered

theorem Node.tours_keeps (h : ∀ s c v, P s → P (visit s c v).1) {s : σ} (hs : P s)
    (parent : Node) (before : List Node) (trail : List Crumb) (ns : List Node) :
    P (Node.tours visit s parent before trail ns) := by
  cases ns with
  | nil => exact hs
  | cons n ns =>
    rw [Node.tours]
    exact Node.tours_keeps h (Node.tour_keeps h hs _ n) parent (n :: before) trail ns
end

/-- What each visit keeps, a walk keeps. -/
theorem Node.traverse_keeps (h : ∀ s c v, P s → P (visit s c v).1) {s : σ} (hs : P s)
    (root : Node) : P (root.traverse visit s) := by
  rw [root.traverse_eq_tour]
  exact Node.tour_keeps h hs [] root

end Keeps

end CodeAtlas.Syntax
