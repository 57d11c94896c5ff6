import CodeAtlas.Symbol
/-!
Dependencies: directed, syntactic relations from something in a file to a name written in it.
-/
namespace CodeAtlas

inductive DependencyKind where
  | imports
  | inheritance
  | call
  | composition
deriving DecidableEq, Repr, Inhabited

namespace DependencyKind

def all : List DependencyKind :=
  [.imports, .inheritance, .call, .composition]

def id : DependencyKind → String
  | .imports => "import"
  | .inheritance => "inheritance"
  | .call => "call"
  | .composition => "composition"

def ofId? (s : String) : Option DependencyKind :=
  all.find? fun k => k.id == s

end DependencyKind

/-- One dependency. The source is the full name of something in the file, the target a name as it
was written, with dots between its parts. -/
structure Dependency where
  source : String
  target : String
  kind : DependencyKind
  location : Location
deriving DecidableEq, Repr, Inhabited

namespace Dependency

/-- Two dependencies with one key state the same fact. -/
def key (d : Dependency) : String × String × DependencyKind :=
  (d.source, d.target, d.kind)

/-- The dependencies that state something, each fact at its first place only; `seen` holds the keys
already met. -/
def distinctFrom (seen : List (String × String × DependencyKind)) :
    List Dependency → List Dependency
  | [] => []
  | d :: rest =>
    if d.target.isEmpty || seen.contains d.key then distinctFrom seen rest
    else d :: distinctFrom (d.key :: seen) rest

def distinct (deps : List Dependency) : List Dependency :=
  distinctFrom [] deps

end Dependency

end CodeAtlas
