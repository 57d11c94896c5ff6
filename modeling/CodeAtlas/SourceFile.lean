import CodeAtlas.Language
import CodeAtlas.Path
/-!
Files selected for analysis and the module identifiers that stand for them in the graph.
-/
namespace CodeAtlas

def packageMarkers : List String :=
  ["__init__", "mod", "index"]

/-- The identifier of the module in a file: the steps of its path without the extension, joined by
dots. A package marker below the root stands for its directory. -/
def moduleId (path : Path) : String :=
  let steps := path.steps.filter fun s => !s.isEmpty && s != "."
  let id := match steps.getLast? with
    | none => ""
    | some last =>
      let stem := ((Path.mk last).stem?).getD last
      let dirs := steps.dropLast
      Text.dotJoin (if packageMarkers.contains stem && !dirs.isEmpty then dirs else dirs ++ [stem])
  if id.isEmpty then "_" else id

structure SourceFile where
  path : Path
  language : Language
  size : Nat
  moduleId : String
deriving DecidableEq, Repr, Inhabited

def SourceFile.ofPath (path : Path) (language : Language) (size : Nat) : SourceFile :=
  ⟨path, language, size, CodeAtlas.moduleId path⟩

end CodeAtlas
