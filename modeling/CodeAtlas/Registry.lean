import CodeAtlas.Grammar.CFamily
import CodeAtlas.Grammar.Cpp
import CodeAtlas.Grammar.Go
import CodeAtlas.Grammar.Java
import CodeAtlas.Grammar.Python
import CodeAtlas.Grammar.Rust
import CodeAtlas.Grammar.Scala
import CodeAtlas.Grammar.Script
import CodeAtlas.Grammar.Swift
import CodeAtlas.Plugin
/-!
The plugins of a run, each under the language whose files it reads. A language without one is
served by the text plugin.
-/
namespace CodeAtlas

/-- Plugins by language; the entry added last for a language counts. -/
structure Registry where
  entries : List (Language × Plugin)

namespace Registry

def empty : Registry := ⟨[]⟩

def get? (r : Registry) (language : Language) : Option Plugin :=
  r.entries.lookup language

def insert (r : Registry) (language : Language) (plugin : Plugin) : Registry :=
  ⟨(language, plugin) :: r.entries⟩

def add (r : Registry) (plugin : Plugin) : Registry :=
  r.insert plugin.language plugin

def supports (r : Registry) (language : Language) : Bool :=
  (r.get? language).isSome

/-- The plugin that serves a language, and whether it only stands in. -/
def resolve (r : Registry) (language : Language) : Plugin × Bool :=
  match r.get? language with
  | some plugin => (plugin, false)
  | none => (.text, true)

def languages (r : Registry) : List Language :=
  Language.all.filter r.supports

def grammars : List Grammar :=
  [Grammar.Python.rules, Grammar.Rust.rules, Grammar.Script.javascript, Grammar.Script.typescript,
    Grammar.Go.rules, Grammar.Java.rules, Grammar.CFamily.rules, Grammar.Cpp.rules,
    Grammar.Swift.rules, Grammar.Scala.rules]

def builtin : Registry :=
  grammars.foldl (fun r g => r.add (Plugin.ofGrammar g)) empty

end Registry

end CodeAtlas
