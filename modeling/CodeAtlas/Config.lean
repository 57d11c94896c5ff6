import CodeAtlas.Event
import CodeAtlas.Glob
import CodeAtlas.Language
import CodeAtlas.Text.Blank
import CodeAtlas.Yaml.Document
/-!
The configuration of a run. It is a YAML mapping in which every key may be missing; keys that mean
nothing are skipped, known ones may come once.
-/
namespace CodeAtlas

inductive Depth where
  /-- Symbols only. -/
  | shallow
  /-- Symbols, dependencies, graph and patterns. -/
  | full
deriving DecidableEq, Repr, Inhabited

namespace Depth

def id : Depth → String
  | shallow => "shallow"
  | full => "full"

def ofId? : String → Option Depth
  | "shallow" => some shallow
  | "full" => some full
  | _ => none

/-- The depth a user names, in any case. -/
def ofName? (s : String) : Option Depth :=
  ofId? (Text.lower s)

def unknownName (s : String) : String :=
  "invalid analysis depth " ++ Text.quoted (Text.lower s) ++ ", must be 'shallow' or 'full'"

def includesDependencies : Depth → Bool
  | shallow => false
  | full => true

end Depth

structure Config where
  /-- Patterns one of which a file has to match; none means that all files do. -/
  includePatterns : List String := []
  excludePatterns : List String := []
  useDefaultExcludes : Bool := true
  /-- The size in bytes above which a file is left out. -/
  maxFileSize : Nat := 1024 * 1024
  /-- Names of the languages to analyze; none means all. -/
  languages : List String := []
  depth : Depth := .full
  /-- Milliseconds a plugin may take for a file; zero for any time. -/
  fileTimeoutMs : Nat := 10000
  threads : Option Nat := none
  followLinks : Bool := false
  retainTrees : Bool := false
deriving DecidableEq, Repr, Inhabited

inductive ConfigFault where
  | document (fault : Yaml.Fault)
  | notMapping
  | invalidValue (key : String)
  | repeatedKey (key : String)
deriving DecidableEq, Repr, Inhabited

def ConfigFault.message : ConfigFault → String
  | document fault => fault.message
  | notMapping => "invalid type, expected a mapping of configuration keys"
  | invalidValue key => key ++ ": invalid value"
  | repeatedKey key => "duplicate field \x60" ++ key ++ "\x60"

namespace Config

def fileNames : List String := ["archlens.yaml", ".archlens.yaml", "archlens.yml"]

def userFile : String := ".config/archlens/config.yaml"

def defaultExcludedDirs : List String :=
  [".git", ".hg", ".svn", "node_modules", "target", "__pycache__", ".venv", "venv", "vendor"]

def defaultExcludes : List String :=
  defaultExcludedDirs.map fun dir => "**/" ++ dir ++ "/**"

/-- A list of texts; a value that is not written is an empty list. -/
def texts? (value : Yaml.Node) : Option (List String) :=
  match value.untagged with
  | .list items => items.mapM Yaml.Node.text?
  | .scalar true "" => some []
  | _ => none

def count? (value : Yaml.Node) : Option Nat :=
  value.natural?.filter fun n => n < UInt64.size

def withEntry? (config : Config) (key : String) (value : Yaml.Node) : Option Config :=
  match key with
  | "include_patterns" => (texts? value).map fun v => { config with includePatterns := v }
  | "exclude_patterns" => (texts? value).map fun v => { config with excludePatterns := v }
  | "use_default_excludes" => value.truth?.map fun v => { config with useDefaultExcludes := v }
  | "max_file_size" => (count? value).map fun v => { config with maxFileSize := v }
  | "languages" => (texts? value).map fun v => { config with languages := v }
  | "analysis_depth" =>
    (value.choice?.bind Depth.ofId?).map fun v => { config with depth := v }
  | "file_timeout_ms" => (count? value).map fun v => { config with fileTimeoutMs := v }
  | "threads" =>
    value.optional?.bind fun
      | none => some { config with threads := none }
      | some value => (count? value).map fun v => { config with threads := some v }
  | "follow_links" => value.truth?.map fun v => { config with followLinks := v }
  | "retain_syntax_trees" => value.truth?.map fun v => { config with retainTrees := v }
  | _ => none

def keys : List String :=
  ["include_patterns", "exclude_patterns", "use_default_excludes", "max_file_size", "languages",
    "analysis_depth", "file_timeout_ms", "threads", "follow_links", "retain_syntax_trees"]

/-- Takes the entries of a mapping in order; `seen` holds the known keys before them. -/
def withEntries (config : Config) (seen : List String) :
    List (Yaml.Node × Yaml.Node) → Except ConfigFault Config
  | [] => .ok config
  | (key, value) :: rest =>
    match key.text? with
    | none => .error .notMapping
    | some key =>
      if !keys.contains key then withEntries config seen rest
      else if seen.contains key then .error (.repeatedKey key)
      else
        match config.withEntry? key value with
        | none => .error (.invalidValue key)
        | some config => withEntries config (key :: seen) rest

def ofNode (value : Yaml.Node) : Except ConfigFault Config :=
  match value.untagged with
  | .mapping entries => withEntries {} [] entries
  | .scalar true "" => .ok {}
  | _ => .error .notMapping

def ofYaml (text : String) : Except ConfigFault Config :=
  if text.toList.all Text.isBlank then .ok {}
  else
    match Yaml.read text with
    | .error fault => .error (.document fault)
    | .ok value => ofNode value

def glob (pattern : String) : Except Failure Glob :=
  match Glob.read pattern with
  | .ok g => .ok g
  | .error fault => .error (.config (Glob.complaint pattern fault))

def language (name : String) : Except Failure Language :=
  match Language.ofName? name with
  | some l => .ok l
  | none => .error (.config (Language.unknownName name))

/-- Checks the configuration; the result is the list of languages to analyze. -/
def validate (config : Config) : Except Failure (List Language) :=
  if config.maxFileSize = 0 then .error (.config "max_file_size must be greater than 0")
  else if config.threads = some 0 then .error (.config "threads must be at least 1")
  else do
    let _ ← (config.includePatterns ++ config.excludePatterns).mapM glob
    config.languages.mapM language

end Config

end CodeAtlas
