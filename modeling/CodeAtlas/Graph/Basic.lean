import CodeAtlas.Dependency
import CodeAtlas.Language
import Std.Data.HashMap
/-!
The dependency graph of a project. Nodes are the modules, the symbols, and what the project uses
without defining it; every dependency is one edge. Nodes and edges are known by their positions, and
the index finds the position of an identifier.
-/
namespace CodeAtlas

inductive NodeKind where
  | module
  | symbol
  /-- An import that the project does not define. -/
  | external
  /-- Any other target that the project does not define. -/
  | unresolved
deriving DecidableEq, Repr, Inhabited

def NodeKind.id : NodeKind → String
  | .module => "module"
  | .symbol => "symbol"
  | .external => "external"
  | .unresolved => "unresolved"

structure GraphNode where
  id : String
  kind : NodeKind
  symbolKind : Option SymbolKind
  file : Option Path
  language : Option Language
  line : Option Nat
deriving DecidableEq, Repr, Inhabited

def GraphNode.isExternal (n : GraphNode) : Bool :=
  n.kind == .external || n.kind == .unresolved

inductive Resolution where
  /-- The target is the identifier of the node. -/
  | exact
  /-- The target is the end of the identifier. -/
  | suffix
  /-- The target of an import is the directory of a module. -/
  | package
  /-- The head of the target of an import names the node. -/
  | head
  | external
  | unresolved
deriving DecidableEq, Repr, Inhabited

namespace Resolution

def id : Resolution → String
  | exact => "exact"
  | suffix => "suffix"
  | package => "package"
  | head => "prefix"
  | external => "external"
  | unresolved => "unresolved"

def isResolved : Resolution → Bool
  | external | unresolved => false
  | _ => true

end Resolution

structure GraphEdge where
  source : Nat
  target : Nat
  kind : DependencyKind
  resolution : Resolution
  targetName : String
  location : Location
deriving DecidableEq, Repr, Inhabited

structure DependencyGraph where
  nodes : Array GraphNode
  edges : Array GraphEdge
  index : Std.HashMap String Nat
  cycles : List (List Nat)

structure EdgeView where
  source : GraphNode
  target : GraphNode
  edge : GraphEdge
deriving DecidableEq, Repr, Inhabited

namespace DependencyGraph

def node? (g : DependencyGraph) (id : String) : Option GraphNode :=
  g.index[id]?.bind fun i => g.nodes[i]?

def contains (g : DependencyGraph) (id : String) : Bool :=
  g.index.contains id

def view? (g : DependencyGraph) (e : GraphEdge) : Option EdgeView :=
  match g.nodes[e.source]?, g.nodes[e.target]? with
  | some source, some target => some ⟨source, target, e⟩
  | _, _ => none

def views (g : DependencyGraph) : List EdgeView :=
  g.edges.toList.filterMap g.view?

def outgoing (g : DependencyGraph) (id : String) : List EdgeView :=
  match g.index[id]? with
  | none => []
  | some i => (g.edges.toList.filter fun e => e.source == i).filterMap g.view?

def incoming (g : DependencyGraph) (id : String) : List EdgeView :=
  match g.index[id]? with
  | none => []
  | some i => (g.edges.toList.filter fun e => e.target == i).filterMap g.view?

def cycleOf? (g : DependencyGraph) (i : Nat) : Option Nat :=
  g.cycles.findIdx? fun c => c.contains i

def cycleIds (g : DependencyGraph) : List (List String) :=
  g.cycles.map fun c => c.filterMap fun i => (g.nodes[i]?).map GraphNode.id

def externalNodes (g : DependencyGraph) : List GraphNode :=
  g.nodes.toList.filter GraphNode.isExternal

def importEdges (g : DependencyGraph) : List (String × String) :=
  (g.views.filter fun v => v.edge.kind == .imports).map fun v => (v.source.id, v.target.id)

def unresolvedEdgeCount (g : DependencyGraph) : Nat :=
  g.edges.toList.countP fun e => !e.resolution.isResolved

end DependencyGraph

end CodeAtlas
