import CodeAtlas.Config
import CodeAtlas.FileTree
import CodeAtlas.Text.Utf8
/-!
The configuration that is in force. A file that the user names has to be readable; else the first
file counts that has one of the usual names, and without any the defaults do.
-/
namespace CodeAtlas.Config

def unreadable (p : Path) (reason : String) : Failure :=
  .config ("cannot read " ++ p.text ++ ": " ++ reason)

def ofFile (tree : FileTree) (p : Path) : Except Failure Config :=
  match tree.read p with
  | .error fault => .error (unreadable p fault.message)
  | .ok source =>
    match Text.Utf8.strict? source.bytes with
    | none => .error (unreadable p "stream did not contain valid UTF-8")
    | some text =>
      (ofYaml text).mapError fun fault => .config (p.text ++ ": " ++ fault.message)

def usualPaths : List Path :=
  fileNames.map Path.mk ++ [⟨userFile⟩]

/-- The file that counts unless the user names one. -/
def discover? (tree : FileTree) : Option Path :=
  usualPaths.find? tree.hasFile

def load (tree : FileTree) (named : Option Path) : Except Failure Config :=
  match named <|> discover? tree with
  | some p => ofFile tree p
  | none => .ok {}

end CodeAtlas.Config
