import CodeAtlas.Graph.Basic
import CodeAtlas.Project.Structure
/-!
Architectural patterns: what the directories and the graph of a project show together. Every
confidence is a share times what is left after a penalty, both exact ratios of counts
(`Confidence.value` rounds only at the end).
-/
namespace CodeAtlas

/-- The patterns, in the order in which equal confidences are listed. -/
inductive PatternTag where
  | layered
  | monorepo
  | microservices
  | mvc
  | hexagonal
deriving DecidableEq, Repr, Inhabited

namespace PatternTag

def id : PatternTag → String
  | layered => "layered"
  | monorepo => "monorepo"
  | microservices => "microservices"
  | mvc => "mvc"
  | hexagonal => "hexagonal"

def rank : PatternTag → Nat
  | layered => 0
  | monorepo => 1
  | microservices => 2
  | mvc => 3
  | hexagonal => 4

end PatternTag

structure Ratio where
  part : Nat
  whole : Nat
deriving DecidableEq, Repr, Inhabited

namespace Ratio

def one : Ratio := ⟨1, 1⟩

def zero : Ratio := ⟨0, 1⟩

/-- The part of a whole, or nothing where there is no whole. -/
def orZero (part whole : Nat) : Ratio :=
  if whole = 0 then zero else ⟨part, whole⟩

def value (r : Ratio) : Float :=
  r.part.toFloat / r.whole.toFloat

end Ratio

/-- How sure a pattern is: `share * (1 - penalty)`. -/
structure Confidence where
  share : Ratio
  penalty : Ratio
deriving DecidableEq, Repr, Inhabited

def Confidence.value (c : Confidence) : Float :=
  let v := c.share.value * (1.0 - c.penalty.value)
  if v < 0.0 then 0.0 else if 1.0 < v then 1.0 else v

structure Pattern where
  tag : PatternTag
  confidence : Confidence
  evidence : List String
  rationale : String
deriving DecidableEq, Repr, Inhabited

namespace Pattern

def edgeLimit : Nat := 20

def slashed (p : Path) : String :=
  String.ofList (Text.replaceChar '\\' '/' p.text.toList)

def edgeText (v : EdgeView) : String :=
  v.source.id ++ " -> " ++ v.target.id

/-- The directories of the files of a project by their roles: the roles that occur, in the given
order, each with its directories in order. -/
def roleDirs {R : Type} [DecidableEq R] (role : String → Option R) (roles : List R)
    (files : List SourceFile) : List (R × List Path) :=
  let found := files.filterMap fun f => innermost? role f.path
  (roles.map fun r =>
    (r, Ordered.ofList Path.le ((found.filter fun d => d.1 == r).map Prod.snd))).filter
      fun (_, dirs) => !dirs.isEmpty

def ends? {R : Type} (role : String → Option R) (v : EdgeView) : Option (R × R) :=
  match v.source.file.bind (roleOf? role), v.target.file.bind (roleOf? role) with
  | some source, some target => some (source, target)
  | _, _ => none

def roleEdges {R : Type} (role : String → Option R) (g : DependencyGraph) :
    List ((R × R) × EdgeView) :=
  g.views.filterMap fun v => (ends? role v).map (·, v)

def dirTexts {R : Type} (label : R → Option String) (dirs : List (R × List Path)) : List String :=
  dirs.flatMap fun (r, paths) => paths.map fun p =>
    match label r with
    | some name => name ++ ": " ++ slashed p
    | none => slashed p

/-- Directories of at least two layers, whose edges point from presentation towards data. -/
def layered? (s : ProjectStructure) (g : DependencyGraph) : Option Pattern :=
  let dirs := roleDirs Layer.ofDir? Layer.all s.files
  let between := (roleEdges Layer.ofDir? g).filter fun ((a, b), _) => a != b
  let reverse := between.filter fun ((a, b), _) => b.rank < a.rank
  if dirs.length < 2 || between.isEmpty then none
  else some {
    tag := .layered
    confidence := ⟨.one, ⟨reverse.length, between.length⟩⟩
    evidence :=
      dirTexts (fun l => some l.id) dirs ++ (reverse.map fun (_, v) => edgeText v).take edgeLimit
    rationale :=
      toString dirs.length ++ " layer groups; " ++ toString reverse.length ++ " of " ++
        toString between.length ++
        " inter-layer edges point against presentation -> application -> data" }

def packageDirs (manifests : List Manifest) : List Path :=
  Ordered.ofList Path.le ((manifests.filter Manifest.isNested).map Manifest.dir)

def hasSources (files : List SourceFile) (dir : Path) : Bool :=
  files.any fun f => f.language != .unknown && f.path.startsWith dir

/-- At least two nested manifests, for packages with files of known languages. -/
def monorepo? (s : ProjectStructure) : Option Pattern :=
  let nested := s.manifests.filter Manifest.isNested
  let dirs := packageDirs s.manifests
  let withSources := dirs.countP (hasSources s.files)
  if nested.length < 2 then none
  else some {
    tag := .monorepo
    confidence := ⟨⟨withSources, dirs.length⟩, .zero⟩
    evidence := nested.map fun m => slashed m.path
    rationale :=
      toString nested.length ++ " nested manifests in " ++ toString dirs.length ++
        " package directories, " ++ toString withSources ++ " with analyzed sources" }

def serviceOf? (services : List String) (file : Path) : Option String :=
  (topLevelDir? file).filter services.contains

def sameFile (a b : GraphNode) : Bool :=
  match a.file, b.file with
  | some p, some q => p.same q
  | none, none => true
  | _, _ => false

/-- The imports that leave a file of a service for another file of the project, each with the
services at its ends. -/
def leavingImports (services : List String) (g : DependencyGraph) :
    List ((String × Option String) × EdgeView) :=
  g.views.filterMap fun v =>
    if v.edge.kind != .imports || sameFile v.source v.target then none
    else
      match v.source.file.bind (serviceOf? services), v.target.file with
      | some home, some file => some ((home, serviceOf? services file), v)
      | _, _ => none

/-- At least two services, few of whose imports lead from one to another. -/
def microservices? (s : ProjectStructure) (g : DependencyGraph) : Option Pattern :=
  let services := services s.manifests s.entryPoints
  let packages := topLevelPackages s.manifests
  let leaving := leavingImports services g
  let cross := leaving.filter fun ((a, b), _) => b.any (· != a)
  if services.length < 2 then none
  else some {
    tag := .microservices
    confidence :=
      ⟨⟨services.length, max packages.length services.length⟩,
        .orZero cross.length leaving.length⟩
    evidence := services ++ (cross.map fun (_, v) => edgeText v).take edgeLimit
    rationale :=
      toString services.length ++ " of " ++ toString packages.length ++
        " top-level packages are services; " ++ toString cross.length ++ " of " ++
        toString leaving.length ++ " internal imports cross a service boundary" }

inductive InterfaceRole where
  | model
  | view
  | controller
deriving DecidableEq, Repr, Inhabited

namespace InterfaceRole

def all : List InterfaceRole :=
  [model, view, controller]

def dirName : InterfaceRole → String
  | model => "models"
  | view => "views"
  | controller => "controllers"

def ofDir? (name : String) : Option InterfaceRole :=
  all.find? fun r => r.dirName == Text.lower name

end InterfaceRole

def mvc? (s : ProjectStructure) : Option Pattern :=
  let dirs := roleDirs InterfaceRole.ofDir? InterfaceRole.all s.files
  if dirs.length < 2 then none
  else some {
    tag := .mvc
    confidence := ⟨⟨dirs.length, 3⟩, .zero⟩
    evidence := dirTexts (fun _ => none) dirs
    rationale :=
      ", ".intercalate (dirs.map fun (r, _) => r.dirName) ++
        " present out of models, views, controllers" }

inductive BoundaryRole where
  | domain
  | ports
  | adapters
deriving DecidableEq, Repr, Inhabited

namespace BoundaryRole

def all : List BoundaryRole :=
  [domain, ports, adapters]

def dirName : BoundaryRole → String
  | domain => "domain"
  | ports => "ports"
  | adapters => "adapters"

def ofDir? (name : String) : Option BoundaryRole :=
  all.find? fun r => r.dirName == Text.lower name

end BoundaryRole

/-- Ports and adapters, whose edges point inward. -/
def hexagonal? (s : ProjectStructure) (g : DependencyGraph) : Option Pattern :=
  let dirs := roleDirs BoundaryRole.ofDir? BoundaryRole.all s.files
  let has (role : BoundaryRole) : Bool := dirs.any fun (r, _) => r == role
  let boundary := (roleEdges BoundaryRole.ofDir? g).filter fun ((a, b), _) =>
    (a == .adapters) != (b == .adapters)
  let outward := boundary.filter fun ((_, b), _) => b == .adapters
  if !has .ports || !has .adapters then none
  else some {
    tag := .hexagonal
    confidence := ⟨⟨dirs.length, 3⟩, .orZero outward.length boundary.length⟩
    evidence :=
      dirTexts (fun _ => none) dirs ++ (outward.map fun (_, v) => edgeText v).take edgeLimit
    rationale :=
      toString dirs.length ++ " of domain, ports, adapters present; " ++
        toString outward.length ++ " of " ++ toString boundary.length ++
        " adapter boundary edges point outward" }

def notAfter (a b : Pattern) : Bool :=
  let x := a.confidence.value
  let y := b.confidence.value
  if x == y then a.tag.rank ≤ b.tag.rank else y < x

def detect (s : ProjectStructure) (g : DependencyGraph) : List Pattern :=
  ([layered? s g, monorepo? s, microservices? s g, mvc? s, hexagonal? s g].filterMap
    fun p => p).mergeSort notAfter

end Pattern

end CodeAtlas
