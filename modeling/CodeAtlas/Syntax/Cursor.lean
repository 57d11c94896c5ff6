import CodeAtlas.Syntax.Node
import CodeAtlas.Total
/-!
Cursors: a node together with its surroundings. A cursor never leaves the tree it was started on.
`remaining` counts the nodes from the cursor to the end of the tree, and going down makes it
smaller.
-/
namespace CodeAtlas.Syntax

/-- One step from a cursor up: the parent, the siblings before the node, nearest first, and the
siblings after it. -/
structure Crumb where
  parent : Node
  before : List Node
  after : List Node
deriving Repr, Inhabited

/-- A node and the steps up from it, nearest first. -/
structure Cursor where
  node : Node
  trail : List Crumb
deriving Repr, Inhabited

namespace Cursor

def atRoot (n : Node) : Cursor :=
  ⟨n, []⟩

def firstChild? (c : Cursor) : Option Cursor :=
  match c.node.children with
  | [] => none
  | n :: ns => some ⟨n, ⟨c.node, [], ns⟩ :: c.trail⟩

def parent? (c : Cursor) : Option Cursor :=
  match c.trail with
  | [] => none
  | crumb :: trail => some ⟨crumb.parent, trail⟩

def ancestors (c : Cursor) : List Node :=
  c.trail.map Crumb.parent

def siblingsBefore (c : Cursor) : List Node :=
  match c.trail with
  | [] => []
  | crumb :: _ => crumb.before

def following (trail : List Crumb) : Nat :=
  total (fun crumb => Node.sizes crumb.after) trail

/-- The number of nodes from the cursor to the end of the tree. -/
def remaining (c : Cursor) : Nat :=
  c.node.size + following c.trail

theorem remaining_firstChild {c d : Cursor} (h : c.firstChild? = some d) :
    d.remaining + 1 = c.remaining := by
  obtain ⟨⟨l, cs⟩, trail⟩ := c
  cases cs with
  | nil => simp [firstChild?, Node.children] at h
  | cons n ns =>
    simp only [firstChild?, Node.children, Option.some.injEq] at h
    subst h
    simp only [remaining, following, Node.size, Node.sizes, total]
    omega

end Cursor

end CodeAtlas.Syntax
