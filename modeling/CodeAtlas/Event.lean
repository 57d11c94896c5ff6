import CodeAtlas.Path
/-!
Failures and the log of a run. A `Failure` ends the run; a `FileError` concerns one file, is noted
in the log and leaves a mark on the file's slot.
-/
namespace CodeAtlas

inductive Failure where
  | invalidPath (path : Path) (reason : String)
  | config (reason : String)
  | workers (reason : String)
  | inputOutput (reason : String)
deriving DecidableEq, Repr, Inhabited

def Failure.message : Failure → String
  | .invalidPath path reason => "invalid path " ++ path.text ++ ": " ++ reason
  | .config reason => "invalid configuration: " ++ reason
  | .workers reason => "failed to build worker pool: " ++ reason
  | .inputOutput reason => "io error: " ++ reason

/-- Kinds of events that a run survives. -/
inductive EventKind where
  | permissionError
  | scanError
  | parseError
  /-- The text plugin stood in for the plugin of the language. -/
  | pluginFallback
  | timeoutError
  | fileSkipped
  /-- The run was cancelled, so its result is incomplete. -/
  | cancellationRequested
deriving DecidableEq, Repr, Inhabited

namespace EventKind

def all : List EventKind :=
  [permissionError, scanError, parseError, pluginFallback, timeoutError, fileSkipped,
    cancellationRequested]

def id : EventKind → String
  | permissionError => "permission_error"
  | scanError => "scan_error"
  | parseError => "parse_error"
  | pluginFallback => "plugin_fallback"
  | timeoutError => "timeout_error"
  | fileSkipped => "file_skipped"
  | cancellationRequested => "cancellation_requested"

def ofId? (s : String) : Option EventKind :=
  all.find? fun k => k.id == s

def isInformational : EventKind → Bool
  | pluginFallback | cancellationRequested => true
  | _ => false

end EventKind

structure RunEvent where
  kind : EventKind
  file : Option Path
  message : String
deriving DecidableEq, Repr, Inhabited

inductive FileError where
  | parse (file : Path) (reason : String)
  | timeout (file : Path) (limitMs : Nat)
  | unreadable (file : Path) (reason : String)
  | tooLarge (file : Path) (size limit : Nat)
deriving DecidableEq, Repr, Inhabited

namespace FileError

def message : FileError → String
  | parse file reason => "parse error in " ++ file.text ++ ": " ++ reason
  | timeout file limit =>
    "timed out after " ++ toString limit ++ "ms parsing " ++ file.text
  | unreadable file reason => "cannot read " ++ file.text ++ ": " ++ reason
  | tooLarge file size limit =>
    file.text ++ " is " ++ toString size ++ " bytes, above the " ++ toString limit ++ " byte limit"

def eventKind : FileError → EventKind
  | parse .. | unreadable .. => .parseError
  | timeout .. => .timeoutError
  | tooLarge .. => .fileSkipped

def file : FileError → Path
  | parse f _ | timeout f _ | unreadable f _ | tooLarge f _ _ => f

def toEvent (e : FileError) : RunEvent :=
  ⟨e.eventKind, some e.file, e.message⟩

end FileError

structure RunLog where
  entries : List RunEvent
deriving DecidableEq, Repr, Inhabited

namespace RunLog

def empty : RunLog := ⟨[]⟩

def push (log : RunLog) (event : RunEvent) : RunLog :=
  ⟨log.entries ++ [event]⟩

def append (log : RunLog) (events : List RunEvent) : RunLog :=
  ⟨log.entries ++ events⟩

def ofKind (log : RunLog) (kind : EventKind) : List RunEvent :=
  log.entries.filter fun e => e.kind == kind

def warningCount (log : RunLog) : Nat :=
  log.entries.countP fun e => !e.kind.isInformational

end RunLog

end CodeAtlas
