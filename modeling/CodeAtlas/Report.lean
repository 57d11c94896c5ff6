import CodeAtlas.Encoding.Result
import CodeAtlas.Text.Column
/-!
Reports of a run: the whole result as JSON, or a summary for a terminal. The summary is written in
lines, parts of which have a style; without colours the styles are left out.
-/
namespace CodeAtlas

inductive ReportFormat where
  | pretty
  | json
deriving DecidableEq, Repr, Inhabited

namespace ReportFormat

def ofName? (s : String) : Option ReportFormat :=
  match Text.lower s with
  | "pretty" => some pretty
  | "json" => some json
  | _ => none

def unknownName (s : String) : String :=
  "invalid format " ++ Text.quoted s ++ ", must be 'pretty' or 'json'"

end ReportFormat

def version : String := "0.1.0"

inductive Style where
  | bold
  | dim
  | red
  | green
  | yellow
  | blue
  | boldGreen
  | boldCyan
deriving DecidableEq, Repr, Inhabited

namespace Style

def codes : Style → String
  | bold => "1"
  | dim => "2"
  | red => "31"
  | green => "32"
  | yellow => "33"
  | blue => "34"
  | boldGreen => "1;32"
  | boldCyan => "1;36"

def on (s : Style) : List Char := '\x1b' :: '[' :: s.codes.toList ++ ['m']

def off : List Char := ['\x1b', '[', '0', 'm']

/-- A text with `s` again after each place where it switches styles off; `left` is one right
after such a place, and up to four inside it. -/
def reopened (s : Style) (left : Nat) : List Char → List Char
  | [] => if left = 1 then s.on else []
  | c :: rest =>
    let next := if off.isPrefixOf (c :: rest) then 4 else left - 1
    let opened := if left = 1 then s.on else []
    opened ++ c :: reopened s next rest

def apply (s : Style) (text : String) : String :=
  String.ofList (s.on ++ reopened s 0 text.toList ++ off)

end Style

namespace Report

def listLimit : Nat := 10

def styled (color : Bool) (s : Style) (text : String) : String :=
  if color then s.apply text else text

def limited (indent : String) (lines : List String) : List String :=
  lines.take listLimit ++
    if lines.length > listLimit then
      [indent ++ "… " ++ toString (lines.length - listLimit) ++ " more"]
    else []

def header (color : Bool) (r : AnalysisResult) : List String :=
  ["", "  " ++ styled color .boldCyan "archlens" ++ " v" ++ version, "",
    "  " ++ styled color .dim "Root:     " ++ r.project.root.text,
    "  " ++ styled color .dim "Project:  " ++ r.project.projectType.id,
    "  " ++ styled color .dim "Depth:    " ++ r.depth.id]

def status (color : Bool) (r : AnalysisResult) : List String :=
  let state :=
    if r.incomplete then styled color .red "✗ INCOMPLETE" else styled color .green "✓ COMPLETE"
  let generic := r.files.countP FileFacts.isFallback
  let degraded := r.files.countP fun f => f.error.isSome
  let marks :=
    if generic = 0 && degraded = 0 then ""
    else "  " ++ styled color .dim
      ("(" ++ toString generic ++ " generic, " ++ toString degraded ++ " degraded)")
  ["  " ++ state ++ "  " ++ toString r.files.length ++ " files, " ++ toString r.symbolCount ++
    " symbols, " ++ toString r.dependencyCount ++ " dependencies" ++ marks]

def languages (color : Bool) (r : AnalysisResult) : List String :=
  let counts := r.project.languageCounts.mergeSort fun a b => b.2 ≤ a.2
  ("  " ++ styled color .bold "Languages:") :: counts.map fun (l, n) =>
    "    " ++ Text.padRight 12 l.id ++ " " ++ Text.padLeft 5 (toString n) ++ " file" ++
      (if n = 1 then "" else "s")

def graph (color : Bool) (g : DependencyGraph) : List String :=
  let cycles := g.cycleIds
  ["  " ++ styled color .bold "Dependency graph:",
    "    " ++ toString g.nodes.size ++ " nodes, " ++ toString g.edges.size ++ " edges, " ++
      toString g.externalNodes.length ++ " external, " ++ toString g.unresolvedEdgeCount ++
      " unresolved edges"] ++
    if cycles.isEmpty then ["    " ++ styled color .green "no cycles"]
    else
      ("    " ++ styled color .yellow "Cycles" ++ " (" ++ toString cycles.length ++ "):") ::
        limited "      " (cycles.map fun c => "      " ++ styled color .dim (" ⇄ ".intercalate c))

def confidenceStyle (x : Float) : Style :=
  if 0.75 ≤ x then .boldGreen else if 0.5 ≤ x then .green else if 0.25 ≤ x then .yellow else .red

def patterns (color : Bool) (ps : List Pattern) : List String :=
  ("  " ++ styled color .bold "Patterns:") :: ps.flatMap fun p =>
    let x := p.confidence.value
    ["    " ++ Text.padRight 14 p.tag.id ++
        styled color (confidenceStyle x) (Text.padLeft 3 (Decimal.fixed 0 (x * 100.0)) ++ "%"),
      "      " ++ styled color .dim p.rationale]

def hotspots (color : Bool) (s : ComplexitySummary) : List String :=
  ("  " ++ styled color .bold "Complexity" ++ " (mean " ++ Decimal.fixed 1 s.meanCyclomatic ++
    ", max " ++ toString s.maxCyclomatic ++ " per file):") ::
    s.hotspots.map fun h =>
      "    " ++ Text.padLeft 4 (toString h.complexity.toNat) ++ "  " ++ h.id ++
        styled color .dim ("  " ++ h.file.text ++ ":" ++ toString h.line)

def tag (color : Bool) : EventKind → String
  | .permissionError | .scanError => styled color .red "SCAN "
  | .parseError | .timeoutError => styled color .yellow "PARSE"
  | _ => styled color .blue "SKIP "

def warnings (color : Bool) (events : List RunEvent) : List String :=
  ("  " ++ styled color .bold "Warnings" ++ " (" ++ toString events.length ++ "):") ::
    limited "    " (events.map fun e =>
      "    " ++ tag color e.kind ++ " " ++
        ((e.file.map fun f => styled color .blue f.text ++ " ").getD "") ++ e.message)

/-- The parts of a summary; patterns, hotspots and warnings are left out where there are none. -/
def sections (color : Bool) (r : AnalysisResult) : List (List String) :=
  let events := r.log.entries.filter fun e => !e.kind.isInformational
  [header color r, status color r, languages color r, graph color r.graph] ++
    (if r.patterns.isEmpty then [] else [patterns color r.patterns]) ++
    (if r.complexity.hotspots.isEmpty then [] else [hotspots color r.complexity]) ++
    (if events.isEmpty then [] else [warnings color events])

def ofLines (lines : List String) : String :=
  String.join (lines.map fun l => l ++ "\n")

def pretty (color : Bool) (r : AnalysisResult) : String :=
  ofLines ((sections color r).flatMap fun s => s ++ [""])

def json (r : AnalysisResult) : String :=
  (r.json version).pretty ++ "\n"

def text (format : ReportFormat) (color : Bool) (r : AnalysisResult) : String :=
  match format with
  | .pretty => pretty color r
  | .json => json r

end Report

end CodeAtlas
