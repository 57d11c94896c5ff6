import CodeAtlas.Config
/-!
Which files a run takes and which directories it need not enter. Both are asked for paths below
the root, and the patterns see the path with single slashes between its components.
-/
namespace CodeAtlas

structure FileFilter where
  /-- Patterns one of which has to match, if there are any. -/
  includes : Option (List Glob)
  excludes : List Glob
deriving Repr, Inhabited

namespace FileFilter

/-- Reads the patterns of a configuration; the first fault counts, of the including patterns
first. -/
def ofConfig (config : Config) : Except Failure FileFilter := do
  let includes ←
    if config.includePatterns.isEmpty then .ok none
    else (config.includePatterns.mapM Config.glob).map some
  let excludes ← (config.excludePatterns ++
    if config.useDefaultExcludes then Config.defaultExcludes else []).mapM Config.glob
  .ok ⟨includes, excludes⟩

/-- The text of a path that the patterns see. -/
def normal (path : Path) : String :=
  "/".intercalate path.steps

def anyMatches (globs : List Glob) (text : String) : Bool :=
  globs.any fun g => g.admitsText text

def accepts (f : FileFilter) (path : Path) : Bool :=
  let text := normal path
  !anyMatches f.excludes text && f.includes.all fun globs => anyMatches globs text

/-- The name that stands for every entry of a directory. -/
def anyChild : String := "__archlens_any_child__"

/-- Whether a directory is left out with everything in it: a pattern excludes the directory, or an
entry of it that has no special name. -/
def prunes (f : FileFilter) (dir : Path) : Bool :=
  let text := normal dir
  !dir.text.isEmpty &&
    (anyMatches f.excludes text || anyMatches f.excludes (text ++ "/" ++ anyChild))

end FileFilter

end CodeAtlas
