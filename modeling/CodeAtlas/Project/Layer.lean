import CodeAtlas.Path
import CodeAtlas.Text.Cut
/-!
Layers: the parts of an architecture that directories are named for, and the innermost directory
of a path that plays a role.
-/
namespace CodeAtlas

/-- The layers in the direction in which dependencies may point. -/
inductive Layer where
  | presentation
  | application
  | data
deriving DecidableEq, Repr, Inhabited

namespace Layer

def all : List Layer :=
  [presentation, application, data]

def id : Layer → String
  | presentation => "presentation"
  | application => "application"
  | data => "data"

/-- The position of a layer; dependencies point to greater ones. -/
def rank : Layer → Nat
  | presentation => 0
  | application => 1
  | data => 2

def names : Layer → List String
  | presentation =>
    ["ui", "views", "controllers", "handlers", "api", "routes", "presentation", "web", "cli"]
  | application =>
    ["services", "service", "application", "usecases", "domain", "core", "business", "logic"]
  | data =>
    ["repositories", "repository", "persistence", "data", "dal", "db", "infrastructure", "storage",
      "models", "entities"]

def ofDir? (name : String) : Option Layer :=
  all.find? fun l => l.names.contains (Text.lower name)

/-- The layer of a file: that of the innermost directory named for one. -/
def ofPath? (path : Path) : Option Layer :=
  path.parent?.bind fun dirs => dirs.steps.reverse.findSome? ofDir?

end Layer

/-- The innermost of the directories on the way down from `above` that has a role, with its path;
`found` is the innermost one above. -/
def innermostFrom {R : Type} (role : String → Option R) (above : Path) (found : Option (R × Path)) :
    List String → Option (R × Path)
  | [] => found
  | step :: rest =>
    let here := above.join ⟨step⟩
    let found := match role step with
      | some r => some (r, here)
      | none => found
    innermostFrom role here found rest

def innermost? {R : Type} (role : String → Option R) (path : Path) : Option (R × Path) :=
  path.parent?.bind fun dirs => innermostFrom role ⟨""⟩ none dirs.steps

/-- The role of the innermost directory of a path that has one. -/
def roleOf? {R : Type} (role : String → Option R) (path : Path) : Option R :=
  (innermost? role path).map Prod.fst

end CodeAtlas
