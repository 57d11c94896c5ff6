import CodeAtlas.Analysis
import CodeAtlas.Command
import CodeAtlas.Config.Load
import CodeAtlas.Config.Template
import CodeAtlas.Report
import CodeAtlas.Scan
/-!
Carrying out a command. The result is a value: what is printed, what the user is told besides, the
exit code and the files that are left.
-/
namespace CodeAtlas

structure Response where
  /-- The exit code, or what kept the report from being written. -/
  exit : Except FileFault Nat
  printed : String
  notes : List String
  tree : FileTree

namespace Response

def success : Nat := 0

def incomplete : Nat := 1

def failure : Nat := 2

def refusal (tree : FileTree) (notes : List String) : Response :=
  ⟨.ok failure, "", notes, tree⟩

end Response

def textSource (text : String) : Syntax.Source :=
  .plain text.toUTF8

namespace AnalyzeRequest

def prepare (r : AnalyzeRequest) (tree : FileTree) :
    Except String (ReportFormat × Config × ProjectStructure) := do
  let some format := ReportFormat.ofName? r.format
    | .error (ReportFormat.unknownName r.format)
  let config ← ((Config.load tree r.configFile).map r.override).mapError Failure.message
  let _ ← config.validate.mapError Failure.message
  let s ← (scan tree r.path config).mapError Failure.message
  .ok (format, config, s)

def exitCode (result : AnalysisResult) : Nat :=
  if result.incomplete then Response.incomplete else Response.success

/-- Puts the report where the user wants it; a file has no colours. -/
def deliver (r : AnalyzeRequest) (tree : FileTree) (color : Bool) (format : ReportFormat)
    (notes : List String) (result : AnalysisResult) : Response :=
  match r.output with
  | none => ⟨.ok (exitCode result), Report.text format color result, notes, tree⟩
  | some p =>
    match tree.write p (textSource (Report.text format false result)) with
    | .error fault => ⟨.error fault, "", notes, tree⟩
    | .ok written => ⟨.ok (exitCode result), "", notes ++ ["Wrote " ++ p.text], written⟩

def run (r : AnalyzeRequest) (tree : FileTree) (color : Bool) : Response :=
  match r.prepare tree with
  | .error message => .refusal tree ["Error: " ++ message]
  | .ok (format, config, s) =>
    let notes := if s.files.isEmpty then ["Warning: no files to analyze"] else []
    let analyzer := Analyzer.onDisk tree r.path config Registry.builtin
    r.deliver tree color format notes (analyzer.analyze (fun _ => false) s)

end AnalyzeRequest

namespace Language

def listing (name description : String) : String :=
  "  " ++ Text.padRight 12 name ++ " " ++ description

def extensionListing (l : Language) : String :=
  listing l.id (", ".intercalate l.extensions)

/-- The list of languages: those that a plugin reads, then those of which the text is read. -/
def catalogue (color : Bool) : List String :=
  let generic := Language.all.filter fun l => !Registry.builtin.supports l && l != .unknown
  [Report.styled color .bold "Grammar plugins:"] ++
    Registry.builtin.languages.map extensionListing ++
    ["", Report.styled color .bold "Generic extraction only:"] ++
    generic.map extensionListing ++
    [listing "unknown" (Report.styled color .dim "anything else")]

end Language

namespace InitRequest

def nextSteps (r : InitRequest) : List String :=
  ["Created " ++ r.output.text, "", "Next steps:",
    "  1. Edit " ++ r.output.text ++ " to customize for your project",
    "  2. Run: archlens analyze . --config " ++ r.output.text]

/-- The directory that the file shall be in, unless it is the working directory. -/
def newDir? (r : InitRequest) : Option Path :=
  r.output.parent?.filter fun p => !p.text.isEmpty && !p.same ⟨"."⟩

/-- Writes the template; directories that are missing are made. -/
def run (r : InitRequest) (tree : FileTree) : Response :=
  if tree.has r.output && !r.force then
    .refusal tree ["Error: file already exists: " ++ r.output.text,
      "Use --force to overwrite it or --output to pick another path"]
  else
    match r.newDir?.elim (tree, none) tree.makeDirs with
    | (tree, some fault) =>
      .refusal tree ["Error: failed to create directory: " ++ fault.message]
    | (tree, none) =>
      match tree.write r.output (textSource (Report.ofLines Config.template)) with
      | .error fault =>
        .refusal tree ["Error: failed to write configuration: " ++ fault.message]
      | .ok written => ⟨.ok Response.success, Report.ofLines r.nextSteps, [], written⟩

end InitRequest

def Command.run (tree : FileTree) (color : Bool) : Command → Response
  | .analyze r => r.run tree color
  | .languages => ⟨.ok Response.success, Report.ofLines (Language.catalogue color), [], tree⟩
  | .init r => r.run tree

end CodeAtlas
