import CodeAtlas.Text.Cut
import CodeAtlas.Text.Quoted
/-!
The languages a file can be written in, their identifiers and the file extensions that decide
them. Every identifier reads back as its language (`ofName?_id`).
-/
namespace CodeAtlas

/-- A language that files are classified as; `unknown` stands for every other one. -/
inductive Language where
  | python
  | rust
  | javascript
  | typescript
  | go
  | java
  | c
  | cpp
  | csharp
  | ruby
  | php
  | kotlin
  | swift
  | scala
  | shell
  | unknown
deriving DecidableEq, Repr, Inhabited

namespace Language

def all : List Language :=
  [python, rust, javascript, typescript, go, java, c, cpp, csharp, ruby, php, kotlin, swift, scala,
    shell, unknown]

def id : Language → String
  | python => "python"
  | rust => "rust"
  | javascript => "javascript"
  | typescript => "typescript"
  | go => "go"
  | java => "java"
  | c => "c"
  | cpp => "cpp"
  | csharp => "csharp"
  | ruby => "ruby"
  | php => "php"
  | kotlin => "kotlin"
  | swift => "swift"
  | scala => "scala"
  | shell => "shell"
  | unknown => "unknown"

/-- The extensions of each language, in alphabetic order. The extension of header files is absent:
two languages share it. -/
def extensions : Language → List String
  | python => ["py", "pyi"]
  | rust => ["rs"]
  | javascript => ["cjs", "js", "jsx", "mjs"]
  | typescript => ["cts", "mts", "ts", "tsx"]
  | go => ["go"]
  | java => ["java"]
  | c => ["c"]
  | cpp => ["cc", "cpp", "cxx", "hh", "hpp", "hxx"]
  | csharp => ["cs"]
  | ruby => ["rb"]
  | php => ["php"]
  | kotlin => ["kt", "kts"]
  | swift => ["swift"]
  | scala => ["sc", "scala"]
  | shell => ["bash", "sh", "zsh"]
  | unknown => []

def ofId? (s : String) : Option Language :=
  all.find? fun l => l.id == s

def ofExtension? (ext : String) : Option Language :=
  all.find? fun l => l.extensions.contains (Text.lower ext)

def unalias : String → String
  | "py" => "python"
  | "rs" => "rust"
  | "js" => "javascript"
  | "ts" => "typescript"
  | "golang" => "go"
  | "c++" => "cpp"
  | "c#" => "csharp"
  | "cs" => "csharp"
  | "sh" => "shell"
  | "bash" => "shell"
  | s => s

def ofName? (s : String) : Option Language :=
  ofId? (unalias (Text.lower (String.ofList (Text.trim s.toList))))

def unknownName (s : String) : String :=
  "unknown language " ++ Text.quoted s

/-- Every identifier names its language. -/
theorem ofId?_id (l : Language) : ofId? l.id = some l := by
  cases l <;> decide +kernel

/-- Users may name every language by its identifier. -/
theorem ofName?_id (l : Language) : ofName? l.id = some l := by
  cases l <;> decide +kernel

/-- Every listed extension decides its language. -/
theorem ofExtension?_of_mem {l : Language} {ext : String} (h : ext ∈ l.extensions) :
    ofExtension? ext = some l := by
  cases l <;> simp only [extensions, List.mem_cons, List.not_mem_nil, or_false] at h <;>
    rcases h with rfl | rfl | rfl | rfl | rfl | rfl | h <;> decide +kernel

end Language

end CodeAtlas
