import CodeAtlas.Complexity
import CodeAtlas.Dependency
import CodeAtlas.Event
import CodeAtlas.SourceFile
/-!
What is known of one file: its slot in the result of a run.
-/
namespace CodeAtlas

structure FileFacts where
  path : Path
  language : Language
  moduleId : String
  symbols : List Symbol
  dependencies : List Dependency
  metrics : FileMetrics
  /-- Something of the file may be missing. -/
  isPartial : Bool
  /-- The text plugin read the file. -/
  isFallback : Bool
  error : Option FileError
deriving DecidableEq, Repr, Inhabited

namespace FileFacts

def blank (file : SourceFile) : FileFacts :=
  ⟨file.path, file.language, file.moduleId, [], [], .none, false, false, none⟩

def degraded (file : SourceFile) (error : FileError) : FileFacts :=
  { blank file with isPartial := true, error := some error }

end FileFacts

end CodeAtlas
