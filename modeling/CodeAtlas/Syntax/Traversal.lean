import CodeAtlas.Syntax.Cursor
/-!
Walks through a syntax tree. `traverse` moves one cursor through the tree and tells a visitor when
a node is entered and when it is left; on entering, the visitor may decline the children.
-/
namespace CodeAtlas.Syntax

inductive Visit where
  | enter
  | leave
deriving DecidableEq, Repr, Inhabited

/-- A visitor: what a visit to a node does to the state, and on entering whether to walk through
the children. -/
abbrev Visitor (σ : Type) := σ → Cursor → Visit → σ × Bool

namespace Cursor

/-- Goes up until some node has a sibling after it and stops there, or at the root; every node that
is gone up to is left. -/
def climb {σ : Type} (visit : Visitor σ) (state : σ) (node : Node) :
    List Crumb → σ × Option Cursor
  | [] => (state, none)
  | ⟨parent, before, next :: after⟩ :: trail =>
    (state, some ⟨next, ⟨parent, node :: before, after⟩ :: trail⟩)
  | ⟨parent, _, []⟩ :: trail =>
    climb visit (visit state ⟨parent, trail⟩ .leave).1 parent trail

theorem climb_remaining {σ : Type} {visit : Visitor σ} {state : σ} {node : Node}
    {trail : List Crumb} {c : Cursor} (h : (climb visit state node trail).2 = some c) :
    c.remaining = following trail := by
  induction trail generalizing state node with
  | nil => simp [climb] at h
  | cons crumb trail ih =>
    obtain ⟨parent, before, after⟩ := crumb
    cases after with
    | nil =>
      have := ih (by simpa [climb] using h)
      simpa [following, Node.sizes, total] using this
    | cons n ns =>
      simp only [climb, Option.some.injEq] at h
      subst h
      simp [remaining, following, Node.sizes, total, Nat.add_assoc]

set_option linter.unusedVariables false in
def walk {σ : Type} (visit : Visitor σ) (state : σ) (c : Cursor) : σ :=
  let entered := visit state c .enter
  match down : if entered.2 then c.firstChild? else none with
  | some d => walk visit entered.1 d
  | none =>
    match on : climb visit (visit entered.1 c .leave).1 c.node c.trail with
    | (state, some d) => walk visit state d
    | (state, none) => state
termination_by c.remaining
decreasing_by
  · have hd : c.firstChild? = some d := by
      revert down
      split <;> simp
    have := remaining_firstChild hd
    omega
  · have := climb_remaining (c := d) (by rw [on])
    have := c.node.size_pos
    simp only [remaining] at *
    omega

end Cursor

namespace Node

def traverse {σ : Type} (visit : Visitor σ) (state : σ) (root : Node) : σ :=
  (Cursor.atRoot root).walk visit state

def outermost (kinds : List String) (root : Node) : List Node :=
  (root.traverse (fun found c v =>
    if v == .enter && c.node.isOneOf kinds then (c.node :: found, false) else (found, true))
    []).reverse

/-- The greatest number of nodes with one of the kinds on a path down from the root. -/
def nestingDepth (kinds : List String) (root : Node) : Nat :=
  (root.traverse (fun (depth, most) c v =>
    if c.node.isOneOf kinds then
      match v with
      | .enter => ((depth + 1, max most (depth + 1)), true)
      | .leave => ((depth - 1, most), true)
    else ((depth, most), true))
    ((0 : Nat), (0 : Nat))).2

end Node

end CodeAtlas.Syntax
