import CodeAtlas.Complexity
import CodeAtlas.Syntax.Node
/-!
Queries: what the nodes of a tree say about decision points and imports. A decision rule names a
kind of node, if need be with the operator it applies; an import rule says which nodes hold the
target of an import.
-/
namespace CodeAtlas.Syntax

structure DecisionRule where
  kind : String
  operator : Option String
  decision : Decision
deriving DecidableEq, Repr, Inhabited

namespace DecisionRule

def node (kind : String) (decision : Decision) : DecisionRule :=
  ⟨kind, none, decision⟩

def applying (kind operator : String) (decision : Decision) : DecisionRule :=
  ⟨kind, some operator, decision⟩

def holds (r : DecisionRule) (n : Node) : Bool :=
  n.named && n.kind == r.kind &&
    match r.operator with
    | none => true
    | some op => n.children.any fun c => c.field == "operator" && !c.named && c.kind == op

end DecisionRule

def decisions (rules : List DecisionRule) (root : Node) : List Decision :=
  root.subtree.flatMap fun n => (rules.filter fun r => r.holds n).map DecisionRule.decision

def complexity (rules : List DecisionRule) (root : Node) : UInt32 :=
  complexityOf (decisions rules root).length

inductive ImportRule where
  | node (kind : String)
  /-- The named children in a role, of one kind or of any. -/
  | field (kind role : String) (childKind : Option String)
  /-- The literal arguments of a call of one function. -/
  | call (function : String)
deriving DecidableEq, Repr, Inhabited

namespace ImportRule

def targets (r : ImportRule) (source : Source) (n : Node) : List Node :=
  match r with
  | node kind => if n.named && n.kind == kind then [n] else []
  | field kind role childKind =>
    if n.named && n.kind == kind then
      (n.childrenIn role).filter fun c => c.named && childKind.all (· == c.kind)
    else []
  | call function =>
    let applies := n.children.any fun c =>
      c.field == "function" && c.named && c.kind == "identifier" && source.text c == function
    if n.named && n.kind == "call_expression" && applies then
      ((n.childrenIn "arguments").filter fun c => c.named && c.kind == "arguments").flatMap
        fun c => c.namedChildren.filter fun d => d.kind == "string"
    else []

end ImportRule

def importTargets (rules : List ImportRule) (source : Source) (root : Node) : List Node :=
  (root.subtree.flatMap fun n => rules.flatMap fun r => r.targets source n).mergeSort
    fun a b => a.start ≤ b.start

end CodeAtlas.Syntax
