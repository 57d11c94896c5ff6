import CodeAtlas.Classify
import CodeAtlas.FileFilter
import CodeAtlas.Project.Structure
import CodeAtlas.Walk
/-!
Scanning a project: a walk from the root selects the files to analyze and collects the manifests.
A directory that the filter prunes is not entered; a manifest is noted wherever the walk comes; a
file is selected if the filter accepts it, its language is wanted and it is not too large.
-/
namespace CodeAtlas

structure Selection where
  filter : FileFilter
  /-- The languages that are wanted; none means all. -/
  languages : List Language
  maxFileSize : Nat
deriving Repr, Inhabited

inductive Finding where
  | source (file : SourceFile)
  | manifest (manifest : Manifest)
  | issue (event : RunEvent)
deriving Repr, Inhabited

namespace Finding

def source? : Finding → Option SourceFile
  | source f => some f
  | _ => none

def manifest? : Finding → Option Manifest
  | manifest m => some m
  | _ => none

def issue? : Finding → Option RunEvent
  | issue e => some e
  | _ => none

end Finding

namespace Selection

def ofConfig (config : Config) : Except Failure Selection := do
  let filter ← FileFilter.ofConfig config
  let languages ← config.validate
  .ok ⟨filter, languages, config.maxFileSize⟩

def languageOf (path : Path) (source : Syntax.Source) : Language :=
  Classify.language path (some (source.bytes.extract 0 Classify.sampleSize))

def wants (s : Selection) (l : Language) : Bool :=
  s.languages.isEmpty || s.languages.contains l

def sized (s : Selection) (path : Path) (l : Language) (size : Nat) : Finding :=
  if size > s.maxFileSize then .issue (FileError.tooLarge path size s.maxFileSize).toEvent
  else .source (SourceFile.ofPath path l size)

def ofFile (s : Selection) (path : Path) (source : Syntax.Source) : List Finding :=
  let manifests := ((path.fileName?.bind Ecosystem.ofFileName?).map fun e =>
    Finding.manifest ⟨path, e⟩).toList
  let l := languageOf path source
  if s.filter.accepts path && s.wants l then manifests ++ [s.sized path l source.bytes.size]
  else manifests

mutual

def findings (s : Selection) (path : Path) : Sight → List Finding
  | .file source => s.ofFile path source
  | .dir entries => if s.filter.prunes path then [] else s.findingsIn path entries
  | .obstacle message => [.issue ⟨.scanError, some path, message⟩]
  | .hidden => []

def findingsIn (s : Selection) (path : Path) : List (String × Sight) → List Finding
  | [] => []
  | (name, e) :: rest => s.findings (path.join ⟨name⟩) e ++ s.findingsIn path rest

end

end Selection

def ProjectStructure.ofFindings (root : Path) (found : List Finding) : ProjectStructure :=
  { ofFiles root (found.filterMap Finding.source?) (found.filterMap Finding.manifest?) with
    issues := found.filterMap Finding.issue? }

def scan (tree : FileTree) (root : Path) (config : Config) : Except Failure ProjectStructure := do
  let selection ← Selection.ofConfig config
  match tree.resolve root with
  | .error fault => .error (.invalidPath root fault.message)
  | .ok place =>
    match tree.below? place with
    | some (.dir entries) =>
      let seen := tree.walk config.followLinks place root entries
      .ok (.ofFindings root (selection.findings ⟨""⟩ seen))
    | _ => .error (.invalidPath root "not a directory")

end CodeAtlas
