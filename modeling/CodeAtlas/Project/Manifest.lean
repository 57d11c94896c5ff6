import CodeAtlas.Path
import CodeAtlas.Text.Cut
/-!
Manifests: the files that mark the directory they lie in as a package of some ecosystem.
-/
namespace CodeAtlas

inductive Ecosystem where
  | rust
  | node
  | python
  | go
  | jvm
  | native
  | php
  | ruby
  | dotnet
deriving DecidableEq, Repr, Inhabited

namespace Ecosystem

def all : List Ecosystem :=
  [rust, node, python, go, jvm, native, php, ruby, dotnet]

def id : Ecosystem → String
  | rust => "rust"
  | node => "node"
  | python => "python"
  | go => "go"
  | jvm => "jvm"
  | native => "native"
  | php => "php"
  | ruby => "ruby"
  | dotnet => "dotnet"

def ofId? (s : String) : Option Ecosystem :=
  all.find? fun e => e.id == s

def ofFileName? : String → Option Ecosystem
  | "Cargo.toml" => some rust
  | "package.json" => some node
  | "pyproject.toml" | "setup.py" | "setup.cfg" | "requirements.txt" => some python
  | "go.mod" => some go
  | "pom.xml" | "build.gradle" | "build.gradle.kts" => some jvm
  | "CMakeLists.txt" | "Makefile" => some native
  | "composer.json" => some php
  | "Gemfile" => some ruby
  | name => if Text.ends ".csproj" name then some dotnet else none

end Ecosystem

structure Manifest where
  path : Path
  ecosystem : Ecosystem
deriving DecidableEq, Repr, Inhabited

namespace Manifest

def dir (m : Manifest) : Path :=
  m.path.dir

def depth (m : Manifest) : Nat :=
  m.dir.components.length

def isNested (m : Manifest) : Bool :=
  1 ≤ m.depth

end Manifest

end CodeAtlas
