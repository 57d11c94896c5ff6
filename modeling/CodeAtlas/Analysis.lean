import CodeAtlas.Config
import CodeAtlas.FileTree
import CodeAtlas.Graph.Build
import CodeAtlas.Pattern
import CodeAtlas.Registry
import CodeAtlas.Summary
/-!
Analyzing the files of a project. Every file gets its slot, whatever happens to it: a file that
cannot be read leaves an empty slot, and where a plugin fails the text plugin reads the file. What
happened is in the log and marked on the slot.
-/
namespace CodeAtlas

structure Outcome where
  facts : FileFacts
  events : List RunEvent
deriving Repr, Inhabited

namespace Plugin

def crashReason (message : Option String) : String :=
  "plugin panicked: " ++ message.getD "unknown panic"

def extractError (file : SourceFile) (what : String) : ExtractFault → FileError
  | .failed causes => .parse file.path (what ++ " extraction: " ++ ": ".intercalate causes)
  | .crashed message => .parse file.path (crashReason message)

def readError (file : SourceFile) : ReadFault → FileError
  | .refused error => error
  | .crashed message => .parse file.path (crashReason message)

/-- Reads a file and extracts its facts to the given depth; a plugin that takes longer than the
limit gives nothing. -/
def run (p : Plugin) (depth : Depth) (limitMs : Option Nat) (file : SourceFile)
    (source : Syntax.Source) : Except FileError FileFacts := do
  let reading ← (p.read file source).mapError (readError file)
  let symbols ← (p.symbols file reading).mapError (extractError file "symbol")
  let dependencies ←
    if depth.includesDependencies then
      (p.dependencies file reading).mapError (extractError file "dependency")
    else pure []
  let facts : FileFacts :=
    { FileFacts.blank file with
      symbols, dependencies, metrics := reading.metrics, isPartial := reading.isPartial,
      isFallback := reading.isFallback }
  match limitMs.filter fun limit => limit ≤ p.pause with
  | some limit => .error (.timeout file.path limit)
  | none => .ok facts

end Plugin

structure Analyzer where
  config : Config
  registry : Registry
  /-- The contents of a file, or the reason why they are out of reach. -/
  contents : SourceFile → Except String Syntax.Source

namespace Analyzer

def onDisk (tree : FileTree) (root : Path) (config : Config) (registry : Registry) : Analyzer where
  config
  registry
  contents file := (tree.read (root.join file.path)).mapError FileFault.message

def limitMs (a : Analyzer) : Option Nat :=
  if a.config.fileTimeoutMs = 0 then none else some a.config.fileTimeoutMs

def giveUp (file : SourceFile) (error : FileError) : Outcome :=
  ⟨.degraded file error, [error.toEvent]⟩

def fallbackEvent (file : SourceFile) (message : String) : RunEvent :=
  ⟨.pluginFallback, some file.path, message ++ ", using generic extraction"⟩

def recover (a : Analyzer) (file : SourceFile) (source : Syntax.Source) (error : FileError) :
    Outcome :=
  let events :=
    [error.toEvent, fallbackEvent file (file.language.id ++ " plugin failed")]
  match Plugin.text.run a.config.depth none file source with
  | .ok facts =>
    ⟨{ facts with isFallback := true, isPartial := true, error := some error }, events⟩
  | .error second => ⟨.degraded file error, events ++ [second.toEvent]⟩

/-- Has the plugin of its language read a file, or the text plugin for want of one. -/
def extract (a : Analyzer) (file : SourceFile) (source : Syntax.Source) : Outcome :=
  match a.registry.resolve file.language with
  | (plugin, true) =>
    let event := fallbackEvent file ("no plugin for " ++ file.language.id)
    match plugin.run a.config.depth none file source with
    | .ok facts => ⟨facts, [event]⟩
    | .error error => ⟨.degraded file error, [event, error.toEvent]⟩
  | (plugin, false) =>
    match plugin.run a.config.depth a.limitMs file source with
    | .ok facts => ⟨facts, []⟩
    | .error error => a.recover file source error

def process (a : Analyzer) (file : SourceFile) : Outcome :=
  if file.size > a.config.maxFileSize then
    giveUp file (.tooLarge file.path file.size a.config.maxFileSize)
  else
    match a.contents file with
    | .error reason => giveUp file (.unreadable file.path reason)
    | .ok source => a.extract file source

end Analyzer

structure Run where
  files : List FileFacts
  log : RunLog
  incomplete : Bool
deriving Repr, Inhabited

def cancelledEvent (n : Nat) : RunEvent :=
  ⟨.cancellationRequested, none,
    "cancelled with " ++ toString n ++ " file(s) not analyzed"⟩

/-- Collects what became of each file, where nothing stands for a file that was left out. -/
def Run.collect (outcomes : List (Option Outcome)) : Run :=
  let done := outcomes.filterMap id
  let skipped := outcomes.countP Option.isNone
  let events := done.flatMap Outcome.events
  { files := done.map Outcome.facts
    log := ⟨if skipped = 0 then events else events ++ [cancelledEvent skipped]⟩
    incomplete := skipped != 0 }

namespace Analyzer

/-- Analyzes files; those that `cancelled` holds of come after the request to stop. -/
def run (a : Analyzer) (cancelled : SourceFile → Bool) (files : List SourceFile) : Run :=
  .collect (files.map fun f => if cancelled f then none else some (a.process f))

end Analyzer

structure AnalysisResult where
  project : ProjectStructure
  /-- One slot for each analyzed file, in the order of the files. -/
  files : List FileFacts
  graph : DependencyGraph
  patterns : List Pattern
  complexity : ComplexitySummary
  /-- The issues of the scan, then the events of the analysis. -/
  log : RunLog
  depth : Depth
  incomplete : Bool

namespace AnalysisResult

def ofRun (s : ProjectStructure) (depth : Depth) (run : Run) : AnalysisResult :=
  let graph := DependencyGraph.ofFiles run.files
  { project := s
    files := run.files
    graph
    patterns := if depth.includesDependencies then Pattern.detect s graph else []
    complexity := .ofFiles run.files
    log := ⟨s.issues ++ run.log.entries⟩
    depth
    incomplete := run.incomplete }

def symbolCount (r : AnalysisResult) : Nat :=
  total (fun f => f.symbols.length) r.files

def dependencyCount (r : AnalysisResult) : Nat :=
  total (fun f => f.dependencies.length) r.files

end AnalysisResult

def Analyzer.analyze (a : Analyzer) (cancelled : SourceFile → Bool) (s : ProjectStructure) :
    AnalysisResult :=
  .ofRun s a.config.depth (a.run cancelled s.files)

end CodeAtlas
