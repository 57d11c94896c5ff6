import CodeAtlas.Event
import CodeAtlas.Ordered
import CodeAtlas.Project.Layer
import CodeAtlas.Project.Manifest
import CodeAtlas.SourceFile
/-!
The structure of a project: its files and manifests in order, and what they show about its shape.
-/
namespace CodeAtlas

inductive ProjectType where
  | microservices
  | monorepo
  | layered
  | singlePackage
  | unstructured
deriving DecidableEq, Repr, Inhabited

def ProjectType.id : ProjectType → String
  | .microservices => "microservices"
  | .monorepo => "monorepo"
  | .layered => "layered"
  | .singlePackage => "single_package"
  | .unstructured => "unstructured"

def entryPointNames : List String :=
  ["main.rs", "main.py", "__main__.py", "manage.py", "app.py", "wsgi.py", "main.go", "index.js",
    "index.ts", "server.js", "server.ts", "main.js", "main.ts", "Main.java", "Application.java",
    "main.c", "main.cpp"]

/-- Whether a program starts at a file: by its name, or as one of several programs of a package. -/
def isEntryPoint (path : Path) : Bool :=
  match path.fileName? with
  | none => false
  | some name =>
    (path.dir.endsWith ⟨"src/bin"⟩ && Text.ends ".rs" name) || entryPointNames.contains name

def topLevelDir? (path : Path) : Option String :=
  match path.components with
  | first :: _ :: _ => some first.text
  | _ => none

def topLevelPackages (manifests : List Manifest) : List String :=
  Ordered.strings ((manifests.filter fun m => m.depth == 1).map fun m => m.dir.text)

/-- The directories directly below the root that hold a manifest and have an entry point below
them, in order. -/
def services (manifests : List Manifest) (entryPoints : List Path) : List String :=
  Ordered.strings
    ((entryPoints.filterMap topLevelDir?).filter fun d => (topLevelPackages manifests).contains d)

def layersOf (files : List SourceFile) : List Layer :=
  Layer.all.filter fun l => files.any fun f => Layer.ofPath? f.path == some l

/-- The shape of a project; the first rule that fits decides. -/
def projectType (files : List SourceFile) (manifests : List Manifest) (entryPoints : List Path) :
    ProjectType :=
  if 2 ≤ (services manifests entryPoints).length then .microservices
  else if 2 ≤ manifests.countP Manifest.isNested then .monorepo
  else if 2 ≤ (layersOf files).length then .layered
  else if manifests.any fun m => m.depth == 0 then .singlePackage
  else .unstructured

structure ProjectStructure where
  root : Path
  /-- The selected files in the order of their paths. -/
  files : List SourceFile
  languageCounts : List (Language × Nat)
  projectType : ProjectType
  entryPoints : List Path
  ecosystems : List Ecosystem
  manifests : List Manifest
  issues : List RunEvent
deriving DecidableEq, Repr, Inhabited

namespace ProjectStructure

def ofFiles (root : Path) (files : List SourceFile) (manifests : List Manifest) :
    ProjectStructure :=
  let files := files.mergeSort fun a b => a.path.le b.path
  let manifests := manifests.mergeSort fun a b => a.path.le b.path
  let entryPoints := (files.map SourceFile.path).filter isEntryPoint
  { root
    files
    languageCounts := (Language.all.map fun l =>
      (l, files.countP fun f => f.language == l)).filter fun (_, n) => n != 0
    projectType := CodeAtlas.projectType files manifests entryPoints
    entryPoints
    ecosystems := Ecosystem.all.filter fun e => manifests.any fun m => m.ecosystem == e
    manifests
    issues := [] }

/-- Halves the `size` files from `base` on until one is left: the last one not after the path, or
the first one. -/
def search (files : List SourceFile) (path : Path) (base size : Nat) : Nat :=
  if size ≤ 1 then base
  else
    let half := size / 2
    let after := (files[base + half]?).all fun f => f.path.compare path == .gt
    search files path (if after then base else base + half) (size - half)
termination_by size

/-- The file with the same path, the last one of several. -/
def file? (s : ProjectStructure) (path : Path) : Option SourceFile :=
  (s.files[search s.files path 0 s.files.length]?).filter fun f => f.path.same path

end ProjectStructure

end CodeAtlas
