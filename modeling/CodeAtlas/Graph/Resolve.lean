import CodeAtlas.FileFacts
import CodeAtlas.Graph.Basic
import CodeAtlas.Graph.NameIndex
/-!
Resolution: which node a written target means. Candidates are found by their names and ranked by
where the dependency was written; of equally ranked ones the first inserted wins.
-/
namespace CodeAtlas

structure Origin where
  path : Path
  language : Language
  source : String
deriving DecidableEq, Repr, Inhabited

structure Candidate where
  position : Nat
  resolution : Resolution
deriving DecidableEq, Repr, Inhabited

/-- The rank of a candidate: greater depths come first, then smaller demerits. -/
structure Rank where
  depth : Nat
  demerit : Nat
deriving DecidableEq, Repr, Inhabited

namespace Rank

def better (a b : Rank) : Bool :=
  b.depth < a.depth || (a.depth == b.depth && a.demerit < b.demerit)

/-- Three faults as one number, the first weighing more than the others together. -/
def faults (first second third : Bool) : Nat :=
  4 * first.toNat + 2 * second.toNat + third.toNat

end Rank

/-- The scope that an identifier was declared in: what precedes the last dot of the part in front of
the first `@`. -/
def scopeOfId? (id : String) : Option String :=
  let base := id.toList.takeWhile (· != '@')
  let rest := base.reverse.dropWhile (· != '.')
  match rest with
  | [] => none
  | _ :: scope => some (String.ofList scope.reverse)

def encloses (scope id : String) : Bool :=
  match Text.after? scope.toList id.toList with
  | some [] => true
  | some (c :: _) => c == '.'
  | none => false

namespace GraphNode

/-- The number of steps of the scope of the node if it is around the source of a dependency. -/
def scopeDepth (n : GraphNode) (source : String) : Nat :=
  match scopeOfId? n.id with
  | some scope => if encloses scope source then (Text.dotParts scope).length else 0
  | none => 0

/-- The rank of a node as the target of a dependency. Imports look at the exact name first; other
dependencies look at the innermost scope first and at the exact name last. -/
def rank (n : GraphNode) (isImport exact : Bool) (o : Origin) : Rank :=
  let elsewhere := !(n.file.any fun f => f.same o.path)
  let foreign := n.language != some o.language
  if isImport then ⟨0, Rank.faults (!exact) elsewhere foreign⟩
  else ⟨n.scopeDepth o.source, Rank.faults elsewhere foreign (!exact)⟩

end GraphNode

def bestBy {α : Type} (rank : α → Rank) : List α → Option α
  | [] => none
  | a :: rest => some (rest.foldl (fun best b => if (rank b).better (rank best) then b else best) a)

namespace Candidate

/-- The best candidate; only an import may mean a module. -/
def pick? (nodes : Array GraphNode) (isImport : Bool) (o : Origin) (candidates : List Candidate) :
    Option Candidate :=
  let usable := candidates.filterMap fun c =>
    match nodes[c.position]? with
    | none => none
    | some n => if isImport || n.kind != .module then some (c, n) else none
  (bestBy (fun (c, n) => n.rank isImport (c.resolution == .exact) o) usable).map Prod.fst

end Candidate

structure NodeTable where
  nodes : Array GraphNode
  names : NameIndex

namespace NodeTable

def candidates (t : NodeTable) (name : String) : List Candidate :=
  (t.names.named name).map (⟨·, .exact⟩) ++ (t.names.ending name).map (⟨·, .suffix⟩)

def lookup? (t : NodeTable) (name : String) (isImport : Bool) (o : Origin) : Option Candidate :=
  Candidate.pick? t.nodes isImport o (t.candidates name)

/-- The ends of a target that may name a directory: the target itself and its ends of at least two
steps, the longest first. -/
def packageNames (target : String) : List String :=
  let parts := Text.dotParts target
  target :: (List.range (parts.length - 2)).map fun n => Text.dotJoin (parts.drop (n + 1))

def package? (t : NodeTable) (target : String) (o : Origin) : Option Candidate :=
  (packageNames target).findSome? fun name =>
    Candidate.pick? t.nodes true o ((t.names.within name).map (⟨·, .package⟩))

def head? (t : NodeTable) (target : String) (o : Origin) : Option Candidate :=
  ((properHeads target).reverse.findSome? fun name => t.lookup? name true o).map
    fun c => ⟨c.position, .head⟩

/-- The node that a target means: by its name, and for an import also by a directory or by a head
of the target. -/
def resolve? (t : NodeTable) (target : String) (kind : DependencyKind) (o : Origin) :
    Option Candidate :=
  if kind == .imports then
    ((t.lookup? target true o).orElse fun _ => t.package? target o).orElse fun _ => t.head? target o
  else t.lookup? target false o

end NodeTable

end CodeAtlas
