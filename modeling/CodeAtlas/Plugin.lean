import CodeAtlas.FileFacts
import CodeAtlas.Grammar.Basic
import CodeAtlas.Outline
/-!
Plugins: what reads the files of one language. A plugin first reads a file and then, from what it
read, extracts symbols and dependencies; each of these may fail or crash. A grammar makes a plugin
of the rules of a language, and the text plugin reads any file by its lines.
-/
namespace CodeAtlas

open Syntax

structure Reading where
  source : Source
  metrics : FileMetrics
  isPartial : Bool
  isFallback : Bool
deriving Inhabited

inductive ReadFault where
  | refused (error : FileError)
  | crashed (message : Option String)
deriving Repr, Inhabited

inductive ExtractFault where
  /-- The causes from the outermost to the innermost. -/
  | failed (causes : List String)
  | crashed (message : Option String)
deriving Repr, Inhabited

structure Plugin where
  language : Language
  read : SourceFile → Source → Except ReadFault Reading
  symbols : SourceFile → Reading → Except ExtractFault (List Symbol)
  dependencies : SourceFile → Reading → Except ExtractFault (List Dependency)
  /-- The whole milliseconds that go by before a file is read; a part of one more always does. -/
  pause : Nat

namespace Plugin

def noTree (file : SourceFile) : ExtractFault :=
  .failed ["no syntax tree for " ++ file.path.text]

def ofGrammar (g : Grammar) : Plugin where
  language := g.language
  read file source :=
    match source.tree with
    | none =>
      .error (.refused (.parse file.path (g.language.id ++ " parser produced no tree")))
    | some tree => .ok ⟨source, g.metrics source tree.root, tree.hasError, false⟩
  symbols file reading :=
    match reading.source.tree with
    | none => .error (noTree file)
    | some tree => .ok (g.symbols reading.source file.path tree.root)
  dependencies file reading :=
    match reading.source.tree with
    | none => .error (noTree file)
    | some tree => .ok (g.dependencies reading.source file tree.root)
  pause := 0

def text : Plugin where
  language := .unknown
  read file source :=
    .ok ⟨.plain source.bytes, (Outline.ofBytes file source.bytes).metrics source.bytes, true, true⟩
  symbols file reading := .ok (Outline.ofBytes file reading.source.bytes).symbols
  dependencies file reading := .ok ((Outline.ofBytes file reading.source.bytes).dependencies file)
  pause := 0

end Plugin

end CodeAtlas
