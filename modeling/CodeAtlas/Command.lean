import CodeAtlas.Config
/-!
What a user asks of the program: an analysis, the list of languages, or a new configuration file.
-/
namespace CodeAtlas

/-- The request for an analysis; what is not said is left to the configuration. -/
structure AnalyzeRequest where
  path : Path
  configFile : Option Path := none
  includes : List String := []
  excludes : List String := []
  languages : List String := []
  depth : Option Depth := none
  threads : Option Nat := none
  timeoutMs : Option Nat := none
  maxFileSize : Option Nat := none
  noDefaultExcludes : Bool := false
  format : String := "pretty"
  output : Option Path := none
  noProgress : Bool := false
deriving DecidableEq, Repr, Inhabited

/-- Puts the request before the configuration: patterns are added, all else takes its place. -/
def AnalyzeRequest.override (r : AnalyzeRequest) (config : Config) : Config :=
  { config with
    includePatterns := config.includePatterns ++ r.includes
    excludePatterns := config.excludePatterns ++ r.excludes
    languages := if r.languages.isEmpty then config.languages else r.languages
    depth := r.depth.getD config.depth
    threads := r.threads <|> config.threads
    fileTimeoutMs := r.timeoutMs.getD config.fileTimeoutMs
    maxFileSize := r.maxFileSize.getD config.maxFileSize
    useDefaultExcludes := config.useDefaultExcludes && !r.noDefaultExcludes }

structure InitRequest where
  output : Path := ⟨"archlens.yaml"⟩
  force : Bool := false
deriving DecidableEq, Repr, Inhabited

inductive Command where
  | analyze (request : AnalyzeRequest)
  | languages
  | init (request : InitRequest)
deriving DecidableEq, Repr, Inhabited

structure Invocation where
  verbosity : Nat
  command : Command
deriving DecidableEq, Repr, Inhabited

end CodeAtlas
