import CodeAtlas.Graph.Cycles
import CodeAtlas.Graph.Resolve
/-!
Building the graph of a project: first the nodes of all files, then one edge for each dependency.
An identifier that is taken is told apart by the place of its definition; a target that nothing
defines gets a node that stands for it.
-/
namespace CodeAtlas

structure GraphBuilder where
  table : NodeTable
  index : Std.HashMap String Nat
  edges : Array GraphEdge

/-- The nodes of one file: its module, and its symbols under their full names. -/
structure FileNodes where
  module : Nat
  named : List (String × Nat)
deriving Repr, Inhabited

namespace GraphBuilder

def empty : GraphBuilder :=
  ⟨⟨#[], NameIndex.empty⟩, ∅, #[]⟩

def slashed (p : Path) : String :=
  String.ofList (Text.replaceChar '\\' '/' p.text.toList)

/-- The identifiers for a taken name, in the order they are tried: with the place of the definition,
and then with a number from two on. -/
def placedId (name : String) (node : GraphNode) (n : Nat) : String :=
  let placed := name ++ "@" ++ (node.file.map slashed).getD "" ++ ":" ++
    toString (node.line.getD 0)
  if n = 0 then placed else placed ++ "#" ++ toString (n + 1)

/-- An identifier that is not taken: the name itself if it can be. -/
def freeId (taken : Std.HashMap String Nat) (name : String) (node : GraphNode) : String :=
  if !taken.contains name then name
  else
    let tried := (List.range (taken.size + 1)).map (placedId name node)
    (tried.find? fun id => !taken.contains id).getD (placedId name node (taken.size + 1))

def insert (b : GraphBuilder) (name : String) (node : GraphNode) : GraphBuilder × Nat :=
  let position := b.table.nodes.size
  let node := { node with id := freeId b.index name node }
  ({ b with
      table := ⟨b.table.nodes.push node, b.table.names.add name (node.kind == .module) position⟩
      index := b.index.insert node.id position },
    position)

def moduleNode (f : FileFacts) : GraphNode :=
  ⟨"", .module, none, some f.path, some f.language, some 1⟩

def symbolNode (f : FileFacts) (s : Symbol) : GraphNode :=
  ⟨"", .symbol, some s.kind, some f.path, some f.language, some s.line⟩

def addSymbols (b : GraphBuilder) (f : FileFacts) :
    List Symbol → GraphBuilder × List (String × Nat)
  | [] => (b, [])
  | s :: rest =>
    let name := s.fullName f.moduleId
    let (b, position) := b.insert name (symbolNode f s)
    let (b, named) := b.addSymbols f rest
    (b, (name, position) :: named)

def addFile (b : GraphBuilder) (f : FileFacts) : GraphBuilder × FileNodes :=
  let (b, module) := b.insert f.moduleId (moduleNode f)
  let (b, named) := b.addSymbols f f.symbols
  (b, ⟨module, (f.moduleId, module) :: named⟩)

def addFiles (b : GraphBuilder) : List FileFacts → GraphBuilder × List (FileFacts × FileNodes)
  | [] => (b, [])
  | f :: rest =>
    let (b, nodes) := b.addFile f
    let (b, others) := b.addFiles rest
    (b, (f, nodes) :: others)

/-- The node for a target that nothing defines, and how its edge is labelled. -/
def placeholder (b : GraphBuilder) (target : String) (kind : DependencyKind) :
    GraphBuilder × Candidate :=
  let (id, nodeKind, resolution) :=
    if kind == .imports then ("ext:" ++ target, NodeKind.external, Resolution.external)
    else ("unresolved:" ++ target, NodeKind.unresolved, Resolution.unresolved)
  match b.index[id]? with
  | some position => (b, ⟨position, resolution⟩)
  | none =>
    let position := b.table.nodes.size
    let node : GraphNode := ⟨id, nodeKind, none, none, none, none⟩
    ({ b with
        table := { b.table with nodes := b.table.nodes.push node }
        index := b.index.insert id position },
      ⟨position, resolution⟩)

/-- Adds the edge of a dependency. It starts at the first node of its file with the name of its
source, or at the module. -/
def addEdge (b : GraphBuilder) (f : FileFacts) (nodes : FileNodes) (d : Dependency) :
    GraphBuilder :=
  let source := (nodes.named.lookup d.source).getD nodes.module
  let (b, found) := match b.table.resolve? d.target d.kind ⟨f.path, f.language, d.source⟩ with
    | some c => (b, c)
    | none => b.placeholder d.target d.kind
  { b with
    edges := b.edges.push ⟨source, found.position, d.kind, found.resolution, d.target, d.location⟩ }

def addEdges (b : GraphBuilder) (f : FileFacts) (nodes : FileNodes) : GraphBuilder :=
  f.dependencies.foldl (fun b d => b.addEdge f nodes d) b

def finish (b : GraphBuilder) : DependencyGraph where
  nodes := b.table.nodes
  edges := b.edges
  index := b.index
  cycles := Cycles.cycles b.table.nodes.size (b.edges.toList.map fun e => (e.source, e.target))

end GraphBuilder

def DependencyGraph.ofFiles (files : List FileFacts) : DependencyGraph :=
  let (b, files) := GraphBuilder.empty.addFiles files
  (files.foldl (fun b (f, nodes) => b.addEdges f nodes) b).finish

end CodeAtlas
