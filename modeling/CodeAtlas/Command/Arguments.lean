import CodeAtlas.Command
/-!
Reading the arguments of a call. Options have long names, some also a letter; letters may share a
dash, and a value may follow its option directly, after an equals sign or as the next argument.
After two dashes there are no more options.

The value of an option is checked when the next argument is taken. An argument that means nothing
is reported before a fault in the value in front of it; every other argument comes after.
-/
namespace CodeAtlas

/-- Why arguments are no call of the program, or ask only for information on it. -/
inductive UsageFault where
  | help
  | version
  | nothingAsked
  | missingSubcommand
  | unknownSubcommand
  | unknownArgument
  | missingArgument
  /-- An option without its value, or an empty path. -/
  | missingValue
  | invalidValue
  | unwantedValue
  | repeated
deriving DecidableEq, Repr, Inhabited

namespace UsageFault

/-- The exit code; a call for information is a success. -/
def exitCode : UsageFault → Nat
  | help | version => 0
  | _ => 2

def message : UsageFault → String
  | help | nothingAsked =>
    "Usage: archlens [OPTIONS] <COMMAND>\n\nCommands: analyze, languages, init"
  | version => "archlens 0.1.0"
  | missingSubcommand => "error: a subcommand is required"
  | unknownSubcommand => "error: unrecognized subcommand"
  | unknownArgument => "error: unexpected argument"
  | missingArgument => "error: the required argument <PATH> was not provided"
  | missingValue => "error: a value is required"
  | invalidValue => "error: invalid value"
  | unwantedValue => "error: unexpected value"
  | repeated => "error: an argument cannot be used multiple times"

end UsageFault

inductive Switch where
  | help
  | version
  | verbose
  | noDefaultExcludes
  | noProgress
  | force
deriving DecidableEq, Repr, Inhabited

inductive Setting where
  | path
  | configFile
  | includes
  | excludes
  | language
  | depth
  | threads
  | timeoutMs
  | maxFileSize
  | format
  | output
deriving DecidableEq, Repr, Inhabited

def Setting.isSingle : Setting → Bool
  | includes | excludes | language => false
  | _ => true

inductive Opt where
  | switch (s : Switch)
  | setting (s : Setting)
deriving DecidableEq, Repr, Inhabited

/-- Where in a call an argument stands: before the subcommand or after which one. -/
inductive Level where
  | top
  | analyze
  | languages
  | init
deriving DecidableEq, Repr, Inhabited

namespace Level

def ofName? : String → Option Level
  | "analyze" => some analyze
  | "languages" => some languages
  | "init" => some init
  | _ => none

def long? (level : Level) (name : String) : Option Opt :=
  match level, name with
  | _, "help" => some (.switch .help)
  | _, "verbose" => some (.switch .verbose)
  | top, "version" => some (.switch .version)
  | analyze, "config" => some (.setting .configFile)
  | analyze, "include" => some (.setting .includes)
  | analyze, "exclude" => some (.setting .excludes)
  | analyze, "language" => some (.setting .language)
  | analyze, "depth" => some (.setting .depth)
  | analyze, "threads" => some (.setting .threads)
  | analyze, "timeout-ms" => some (.setting .timeoutMs)
  | analyze, "max-file-size" => some (.setting .maxFileSize)
  | analyze, "no-default-excludes" => some (.switch .noDefaultExcludes)
  | analyze, "format" => some (.setting .format)
  | analyze, "output" => some (.setting .output)
  | analyze, "no-progress" => some (.switch .noProgress)
  | init, "output" => some (.setting .output)
  | init, "force" => some (.switch .force)
  | _, _ => none

def short? (level : Level) (letter : Char) : Option Opt :=
  match level, letter with
  | _, 'h' => some (.switch .help)
  | _, 'v' => some (.switch .verbose)
  | top, 'V' => some (.switch .version)
  | analyze, 'c' => some (.setting .configFile)
  | analyze, 'l' => some (.setting .language)
  | analyze, 'd' => some (.setting .depth)
  | analyze, 'j' => some (.setting .threads)
  | analyze, 'f' => some (.setting .format)
  | analyze, 'o' => some (.setting .output)
  | init, 'o' => some (.setting .output)
  | _, _ => none

end Level

structure ArgumentState where
  settings : List (Setting × String)
  switches : List Switch
  verbosity : Nat
  /-- A setting whose value is not checked yet, or not there yet. -/
  pending : Option (Setting × Option String)
  placed : Bool
deriving Repr, Inhabited

/-- A natural number below 2^64 in decimal digits, perhaps with a plus sign. -/
def decimal? (s : String) : Option Nat :=
  let digits := match s.toList with
    | '+' :: rest => rest
    | cs => cs
  if digits.isEmpty || !digits.all Char.isDigit then none
  else
    let n := digits.foldl (fun n c => n * 10 + (c.toNat - '0'.toNat)) 0
    if n < UInt64.size then some n else none

def Setting.check (k : Setting) (value : String) : Except UsageFault Unit :=
  match k with
  | path | configFile | output => if value.isEmpty then .error .missingValue else .ok ()
  | depth => if (Depth.ofName? value).isSome then .ok () else .error .invalidValue
  | threads | timeoutMs | maxFileSize =>
    if (decimal? value).isSome then .ok () else .error .invalidValue
  | includes | excludes | language | format => .ok ()

namespace ArgumentState

def start : ArgumentState := ⟨[], [], 0, none, false⟩

def store (s : ArgumentState) (k : Setting) (value : String) :
    Except UsageFault ArgumentState :=
  if k.isSingle && s.settings.any fun p => p.1 == k then .error .repeated
  else (k.check value).map fun _ => { s with settings := s.settings ++ [(k, value)] }

def settle (s : ArgumentState) : Except UsageFault ArgumentState :=
  match s.pending with
  | none => .ok s
  | some (_, none) => .error .missingValue
  | some (k, some value) => { s with pending := none }.store k value

def flip (s : ArgumentState) (k : Switch) : Except UsageFault ArgumentState :=
  match k with
  | .help => .error .help
  | .version => .error .version
  | .verbose => .ok { s with verbosity := min 255 (s.verbosity + 1) }
  | k =>
    if s.switches.contains k then .error .repeated
    else .ok { s with switches := s.switches ++ [k] }

def takeLong (s : ArgumentState) (level : Level) (name : String) (value : Option String) :
    Except UsageFault ArgumentState :=
  match level.long? name, value with
  | none, _ => .error .unknownArgument
  | some (.switch _), some _ => .error .unwantedValue
  | some (.switch k), none => s.settle.bind fun s => s.flip k
  | some (.setting k), some value => s.settle.bind fun s => s.store k value
  | some (.setting k), none => s.settle.map fun s => { s with pending := some (k, none) }

def takeShort (s : ArgumentState) (level : Level) : List Char → Except UsageFault ArgumentState
  | [] => .ok s
  | c :: rest =>
    match level.short? c, rest with
    | none, _ => .error .unknownArgument
    | some (.switch k), _ => (s.settle.bind fun s => s.flip k).bind fun s => s.takeShort level rest
    | some (.setting k), [] => s.settle.map fun s => { s with pending := some (k, none) }
    | some (.setting k), '=' :: value => s.settle.bind fun s => s.store k (String.ofList value)
    | some (.setting k), value => s.settle.bind fun s => s.store k (String.ofList value)

def takePlain (s : ArgumentState) (level : Level) (trailing : Bool) (arg : String) :
    Except UsageFault ArgumentState :=
  if level == .analyze && !s.placed then
    s.settle.map fun s => { s with pending := some (.path, some arg), placed := true }
  else if level == .top && !(trailing && (arg == "help" || (Level.ofName? arg).isSome)) then
    .error .unknownSubcommand
  else .error .unknownArgument

def expects (s : ArgumentState) : Option Setting :=
  match s.pending with
  | some (k, none) => some k
  | _ => none

def take (s : ArgumentState) (level : Level) (arg : String) : Except UsageFault ArgumentState :=
  match arg.toList with
  | '-' :: '-' :: name =>
    match Text.splitOnce? ['='] name with
    | some (name, value) => s.takeLong level (String.ofList name) (some (String.ofList value))
    | none => s.takeLong level (String.ofList name) none
  | '-' :: c :: letters => s.takeShort level (c :: letters)
  | _ =>
    match s.expects with
    | some k => .ok { s with pending := some (k, some arg) }
    | none => s.takePlain level false arg

def takeAll (s : ArgumentState) (level : Level) (trailing : Bool) :
    List String → Except UsageFault ArgumentState
  | [] => s.settle
  | arg :: rest =>
    if trailing then (s.takePlain level true arg).bind fun s => s.takeAll level true rest
    else if arg == "--" then s.takeAll level true rest
    else (s.take level arg).bind fun s => s.takeAll level false rest

def value? (s : ArgumentState) (k : Setting) : Option String :=
  (s.settings.reverse.find? fun p => p.1 == k).map Prod.snd

def values (s : ArgumentState) (k : Setting) : List String :=
  (s.settings.filter fun p => p.1 == k).map Prod.snd

def analyzeRequest (s : ArgumentState) : Except UsageFault AnalyzeRequest :=
  match s.value? .path with
  | none => .error .missingArgument
  | some path => .ok
    { path := ⟨path⟩
      configFile := (s.value? .configFile).map Path.mk
      includes := s.values .includes
      excludes := s.values .excludes
      languages := s.values .language
      depth := (s.value? .depth).bind Depth.ofName?
      threads := (s.value? .threads).bind decimal?
      timeoutMs := (s.value? .timeoutMs).bind decimal?
      maxFileSize := (s.value? .maxFileSize).bind decimal?
      noDefaultExcludes := s.switches.contains .noDefaultExcludes
      format := (s.value? .format).getD "pretty"
      output := (s.value? .output).map Path.mk
      noProgress := s.switches.contains .noProgress }

def initRequest (s : ArgumentState) : InitRequest :=
  let base : InitRequest := {}
  { output := ((s.value? .output).map Path.mk).getD base.output
    force := s.switches.contains .force }

def command (s : ArgumentState) : Level → Except UsageFault Command
  | .analyze => s.analyzeRequest.map .analyze
  | .languages => .ok .languages
  | .init => .ok (.init s.initRequest)
  | .top => .error .missingSubcommand

end ArgumentState

namespace Invocation

def helpOn : List String → UsageFault
  | [] => .help
  | [name] =>
    if name == "help" || (Level.ofName? name).isSome then .help else .unknownSubcommand
  | _ => .unknownSubcommand

/-- Reads the arguments after a subcommand. A verbosity given there counts before one that was
given in front of it. -/
def ofLevel (before : ArgumentState) (level : Level) (args : List String) :
    Except UsageFault Invocation := do
  let s ← ArgumentState.start.takeAll level false args
  let command ← s.command level
  .ok ⟨if s.verbosity = 0 then before.verbosity else s.verbosity, command⟩

def readFrom (s : ArgumentState) (trailing : Bool) : List String → Except UsageFault Invocation
  | [] => .error (if s.verbosity = 0 then .nothingAsked else .missingSubcommand)
  | arg :: rest =>
    if trailing then
      (s.takePlain .top true arg).bind fun s => readFrom s true rest
    else if arg == "help" then .error (helpOn rest)
    else
      match Level.ofName? arg with
      | some level => ofLevel s level rest
      | none =>
        if arg == "--" then readFrom s true rest
        else (s.take .top arg).bind fun s => readFrom s false rest

def read (args : List String) : Except UsageFault Invocation :=
  readFrom .start false args

end Invocation

end CodeAtlas
