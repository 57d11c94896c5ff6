import CodeAtlas.Analysis
import CodeAtlas.Encoding.Facts
/-!
Structures, graphs, patterns, summaries and whole results as JSON documents. Entries stand in the
order of the fields; what is missing is left out.
-/
namespace CodeAtlas

def SourceFile.json (f : SourceFile) : Json :=
  .object
    [("path", f.path.json), ("language", .string f.language.id), ("size", .number f.size),
      ("module_id", .string f.moduleId)]

def Manifest.json (m : Manifest) : Json :=
  .object [("path", m.path.json), ("ecosystem", .string m.ecosystem.id)]

def ProjectStructure.json (s : ProjectStructure) : Json :=
  .object
    [("root", s.root.json), ("files", .array (s.files.map SourceFile.json)),
      ("language_counts", .object (s.languageCounts.map fun (l, n) => (l.id, .number n))),
      ("project_type", .string s.projectType.id),
      ("entry_points", .array (s.entryPoints.map Path.json)),
      ("ecosystems", Json.strings (s.ecosystems.map Ecosystem.id)),
      ("manifests", .array (s.manifests.map Manifest.json)),
      ("issues", .array (s.issues.map RunEvent.json))]

def GraphNode.json (n : GraphNode) (cycle : Option Nat) : Json :=
  .object
    ([("id", .string n.id), ("kind", .string n.kind.id)] ++
      Json.optional "symbol_kind" (fun k => .string k.id) n.symbolKind ++
      Json.optional "file" Path.json n.file ++
      Json.optional "language" (fun l => .string l.id) n.language ++
      Json.optional "line" .number n.line ++ Json.optional "cycle" .number cycle)

def EdgeView.json (v : EdgeView) : Json :=
  .object
    [("source", .string v.source.id), ("target", .string v.target.id),
      ("kind", .string v.edge.kind.id), ("resolution", .string v.edge.resolution.id),
      ("target_name", .string v.edge.targetName), ("location", v.edge.location.json)]

def DependencyGraph.nodesJson (g : DependencyGraph) : Json :=
  .array (g.nodes.toList.zipIdx.map fun (n, i) => n.json (g.cycleOf? i))

def DependencyGraph.cyclesJson (g : DependencyGraph) : Json :=
  .array (g.cycleIds.map Json.strings)

def DependencyGraph.json (g : DependencyGraph) : Json :=
  .object
    [("nodes", g.nodesJson), ("edges", .array (g.views.map EdgeView.json)),
      ("cycles", g.cyclesJson)]

def Pattern.json (p : Pattern) : Json :=
  .object
    [("tag", .string p.tag.id), ("confidence", .real p.confidence.value),
      ("evidence", Json.strings p.evidence), ("rationale", .string p.rationale)]

def Hotspot.json (h : Hotspot) : Json :=
  .object
    [("id", .string h.id), ("file", h.file.json), ("line", .number h.line),
      ("complexity", .number h.complexity.toNat)]

def ComplexitySummary.json (s : ComplexitySummary) : Json :=
  .object
    [("files", .number s.files), ("total_lines", .number s.totalLines),
      ("total_cyclomatic", .number s.totalCyclomatic), ("max_cyclomatic", .number s.maxCyclomatic),
      ("mean_cyclomatic", .real s.meanCyclomatic),
      ("max_nesting_depth", .number s.maxNestingDepth),
      ("hotspots", .array (s.hotspots.map Hotspot.json)),
      ("partial_files", .number s.partialFiles), ("fallback_files", .number s.fallbackFiles),
      ("errored_files", .number s.erroredFiles)]

def AnalysisResult.json (version : String) (r : AnalysisResult) : Json :=
  .object
    [("version", .string version), ("structure", r.project.json),
      ("files", .array (r.files.map FileFacts.json)), ("graph", r.graph.json),
      ("patterns", .array (r.patterns.map Pattern.json)), ("complexity", r.complexity.json),
      ("log", r.log.json), ("depth", .string r.depth.id), ("incomplete", .bool r.incomplete)]

end CodeAtlas
