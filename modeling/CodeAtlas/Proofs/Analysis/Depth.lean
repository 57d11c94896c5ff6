import CodeAtlas.Proofs.Analysis.Outcome
import CodeAtlas.Proofs.Graph.Annotation
import CodeAtlas.Proofs.Graph.Placeholders
import CodeAtlas.Scan
/-!
Shallow and full analysis. A plugin that extracts dependencies from whatever it has read gives the
same facts at both depths but for the dependencies (`run_shallow`), and so do the files of a run.
The nodes of the graph are declared before any dependency is looked at (`filter_nodes_ofFiles`), so
that a shallow analysis is a full one without all that comes from dependencies
(`shallow_lacks_dependencies`).
-/
namespace CodeAtlas

/-- The slot of a file whose dependencies were not asked for. -/
def FileFacts.withoutDependencies (f : FileFacts) : FileFacts :=
  { f with dependencies := [] }

def Outcome.withoutDependencies (o : Outcome) : Outcome :=
  ⟨o.facts.withoutDependencies, o.events⟩

namespace Plugin

/-- Dependencies can be extracted from whatever the plugin reads. -/
def ExtractsDependencies (p : Plugin) : Prop :=
  ∀ file source reading, p.read file source = .ok reading →
    ∃ dependencies, p.dependencies file reading = .ok dependencies

theorem text_extracts : text.ExtractsDependencies := by
  intro file source reading _
  exact ⟨_, rfl⟩

/-- No plugin with a grammar looks at the depth but where it extracts dependencies. -/
theorem ofGrammar_extracts (g : Grammar) : (ofGrammar g).ExtractsDependencies := by
  intro file source reading hread
  unfold ofGrammar at hread ⊢
  dsimp only at hread ⊢
  cases htree : source.tree with
  | none =>
    rw [htree] at hread
    cases hread
  | some tree =>
    rw [htree] at hread
    obtain rfl := Except.ok.inj hread
    rw [htree]
    exact ⟨_, rfl⟩

/-- A plugin that fails on no dependencies gives the same facts at both depths but for them. -/
theorem run_shallow {p : Plugin} (hp : p.ExtractsDependencies) (file : SourceFile)
    (source : Syntax.Source) :
    p.run .shallow none file source =
      (p.run .full none file source).map FileFacts.withoutDependencies := by
  unfold run
  cases hread : p.read file source with
  | error fault => rfl
  | ok reading =>
    obtain ⟨dependencies, hdependencies⟩ := hp file source reading hread
    simp only [Except.mapError, bind, Except.bind, Depth.includesDependencies, hdependencies]
    cases p.symbols file reading with
    | error fault => rfl
    | ok symbols => rfl

end Plugin

namespace Registry

/-- The plugins of grammars extract dependencies from whatever they read. -/
theorem builtin_extracts {l : Language} {p : Plugin} (h : builtin.get? l = some p) :
    p.ExtractsDependencies := by
  have hentries : ∀ e ∈ builtin.entries, e.2.ExtractsDependencies := by
    apply List.foldlRecOn (motive := fun r : Registry => ∀ e ∈ r.entries, e.2.ExtractsDependencies)
      grammars _ (fun e he => absurd he List.not_mem_nil)
    intro r hr g _ e he
    rcases List.mem_cons.mp he with rfl | he
    · exact Plugin.ofGrammar_extracts g
    · exact hr e he
  obtain ⟨before, after, hsplit, -⟩ := List.lookup_eq_some_iff.mp h
  exact hentries (l, p) (hsplit ▸ List.mem_append_right _ List.mem_cons_self)

end Registry

/-- Collecting outcomes looks at no dependency. -/
theorem Run.collect_withoutDependencies (outcomes : List (Option Outcome)) :
    Run.collect (outcomes.map (Option.map Outcome.withoutDependencies)) =
      { Run.collect outcomes with
        files := (Run.collect outcomes).files.map FileFacts.withoutDependencies } := by
  have hdone : (outcomes.map (Option.map Outcome.withoutDependencies)).filterMap id =
      (outcomes.filterMap id).map Outcome.withoutDependencies := by
    rw [List.filterMap_map, List.map_filterMap]
    rfl
  have hskipped : (outcomes.map (Option.map Outcome.withoutDependencies)).countP Option.isNone =
      outcomes.countP Option.isNone := by
    rw [List.countP_map]
    refine List.countP_congr ?_
    intro o _
    rw [Function.comp_apply, Option.isNone_map]
  unfold Run.collect
  dsimp only
  rw [hdone, hskipped, List.flatMap_map, List.map_map, List.map_map]
  rfl

namespace Analyzer

def atDepth (a : Analyzer) (depth : Depth) : Analyzer :=
  { a with config := { a.config with depth } }

section Process

variable {a : Analyzer} {file : SourceFile} {source : Syntax.Source}

/-- The text plugin reads a file at both depths. -/
theorem exists_text_runs (file : SourceFile) (source : Syntax.Source) :
    ∃ facts, Plugin.text.run .full none file source = .ok facts ∧
      Plugin.text.run .shallow none file source = .ok facts.withoutDependencies := by
  obtain ⟨facts, hfull, -⟩ := Plugin.exists_text_run .full file source
  refine ⟨facts, hfull, ?_⟩
  rw [Plugin.run_shallow Plugin.text_extracts, hfull]
  rfl

theorem recover_shallow (error : FileError) :
    (a.atDepth .shallow).recover file source error =
      ((a.atDepth .full).recover file source error).withoutDependencies := by
  obtain ⟨facts, hfull, hshallow⟩ := exists_text_runs file source
  have hfull' : (a.atDepth .full).recover file source error = _ := recover_of_ok hfull
  have hshallow' : (a.atDepth .shallow).recover file source error = _ := recover_of_ok hshallow
  rw [hfull', hshallow']
  rfl

variable (hregistry : a.registry = .builtin) (hlimit : a.config.fileTimeoutMs = 0)
include hregistry hlimit

/-- One file at the two depths: the same slot, but for the dependencies. -/
theorem extract_shallow :
    (a.atDepth .shallow).extract file source =
      ((a.atDepth .full).extract file source).withoutDependencies := by
  -- Without a limit the time that the dependencies take makes no difference.
  have hnone : a.limitMs = none := if_pos hlimit
  cases hget : a.registry.get? file.language with
  | none =>
    obtain ⟨facts, hfull, hshallow⟩ := exists_text_runs file source
    have hfull' : (a.atDepth .full).extract file source = _ := extract_of_missing hget hfull
    have hshallow' : (a.atDepth .shallow).extract file source = _ :=
      extract_of_missing hget hshallow
    rw [hfull', hshallow']
    rfl
  | some p =>
    have hrun := Plugin.run_shallow (Registry.builtin_extracts (hregistry ▸ hget)) file source
    rw [← hnone] at hrun
    cases hfull : p.run .full a.limitMs file source with
    | error error =>
      have hshallow : p.run .shallow a.limitMs file source = .error error := by
        rw [hrun, hfull]
        rfl
      have hfull' : (a.atDepth .full).extract file source = _ := extract_of_error hget hfull
      have hshallow' : (a.atDepth .shallow).extract file source = _ :=
        extract_of_error hget hshallow
      rw [hfull', hshallow']
      exact recover_shallow error
    | ok facts =>
      have hshallow : p.run .shallow a.limitMs file source = .ok facts.withoutDependencies := by
        rw [hrun, hfull]
        rfl
      have hfull' : (a.atDepth .full).extract file source = _ := extract_of_ok hget hfull
      have hshallow' : (a.atDepth .shallow).extract file source = _ := extract_of_ok hget hshallow
      rw [hfull', hshallow']
      rfl

/-- What becomes of a file is the same at both depths but for the dependencies. -/
theorem process_shallow :
    (a.atDepth .shallow).process file = ((a.atDepth .full).process file).withoutDependencies := by
  by_cases hsize : a.config.maxFileSize < file.size
  · have hlarge (d : Depth) : (a.atDepth d).process file = _ :=
      process_of_too_large (a := a.atDepth d) hsize
    rw [hlarge, hlarge]
    rfl
  cases hcontents : a.contents file with
  | error reason =>
    have hout (d : Depth) : (a.atDepth d).process file = _ :=
      process_of_unreadable (a := a.atDepth d) hsize hcontents
    rw [hout, hout]
    rfl
  | ok source =>
    have hread (d : Depth) : (a.atDepth d).process file = (a.atDepth d).extract file source :=
      process_of_contents (a := a.atDepth d) hsize hcontents
    rw [hread, hread]
    exact extract_shallow hregistry hlimit

/-- A run gives the same slots at both depths but for the dependencies, and the same log. -/
theorem run_shallow (cancelled : SourceFile → Bool) (files : List SourceFile) :
    (a.atDepth .shallow).run cancelled files =
      { (a.atDepth .full).run cancelled files with
        files := ((a.atDepth .full).run cancelled files).files.map
          FileFacts.withoutDependencies } := by
  unfold run
  rw [← Run.collect_withoutDependencies, List.map_map]
  refine congrArg Run.collect (List.map_congr_left ?_)
  intro f _
  dsimp only [Function.comp_apply]
  cases cancelled f with
  | false => exact congrArg some (process_shallow hregistry hlimit)
  | true => rfl

end Process

end Analyzer

theorem declarations_withoutDependencies (files : List FileFacts) :
    declarations (files.map FileFacts.withoutDependencies) = declarations files :=
  List.flatMap_map ..

theorem uses_withoutDependencies (files : List FileFacts) :
    uses (files.map FileFacts.withoutDependencies) = [] := by
  rw [← List.map_eq_nil_iff (f := Prod.snd), map_snd_uses, List.flatMap_map]
  exact List.flatMap_eq_nil_iff.mpr fun _ _ => rfl

namespace DependencyGraph

/-- Without dependencies the graph is what was declared. -/
theorem ofFiles_withoutDependencies (files : List FileFacts) :
    ofFiles (files.map FileFacts.withoutDependencies) = (GraphBuilder.declared files).finish := by
  rw [ofFiles_eq, uses_withoutDependencies, GraphBuilder.declared,
    declarations_withoutDependencies]
  rfl

/-- The modules and symbols of a graph are the nodes that were declared. -/
theorem filter_nodes_ofFiles (files : List FileFacts) :
    (ofFiles files).nodes.toList.filter (fun n => n.kind == .module || n.kind == .symbol) =
      (GraphBuilder.declared files).table.nodes.toList := by
  have hkind : (fun n : GraphNode => n.kind == .module || n.kind == .symbol) =
      fun n => !n.isExternal := by
    funext n
    unfold GraphNode.isExternal
    cases n.kind <;> rfl
  obtain ⟨extra, hnodes, hextra⟩ :=
    (GraphBuilder.foldl_use_extends (uses files) (.declared files)).nodes
  have hall : (ofFiles files).nodes.toList =
      (GraphBuilder.declared files).table.nodes.toList ++ extra := by
    rw [ofFiles_eq]
    exact hnodes
  have hkept : (GraphBuilder.declared files).table.nodes.toList.filter (fun n => !n.isExternal) =
      (GraphBuilder.declared files).table.nodes.toList := by
    apply List.filter_eq_self.mpr
    intro n hn
    rw [GraphBuilder.isExternal_of_mem_declared hn]
    rfl
  have hdropped : extra.filter (fun n => !n.isExternal) = [] := by
    apply List.filter_eq_nil_iff.mpr
    intro n hn
    rw [hextra n hn]
    decide
  rw [hkind, hall, List.filter_append, hkept, hdropped, List.append_nil]

/-- A graph without edges has no cycle. -/
theorem Closed.cycles_eq_nil {g : DependencyGraph} (hg : g.Closed) (hedges : g.edges = #[]) :
    g.cycles = [] := by
  refine List.eq_nil_iff_forall_not_mem.mpr ?_
  intro c hc
  obtain ⟨v, hclosed, -⟩ := ((hg.mem_cycles c).mp hc).mem
  obtain ⟨w, -, e, he, -⟩ := Relation.TransGen.tail'_iff.mp hclosed
  rw [hedges] at he
  cases he

end DependencyGraph

/-- The figures of a run do not depend on dependencies. -/
theorem ComplexitySummary.ofFiles_withoutDependencies (files : List FileFacts) :
    ofFiles (files.map FileFacts.withoutDependencies) = ofFiles files := by
  unfold ofFiles
  rw [total_map, total_map, List.map_map, List.map_map, List.flatMap_map, List.countP_map,
    List.countP_map, List.countP_map, List.length_map]
  rfl

/-- The first result is the second one without all that comes from dependencies. -/
structure AnalysisResult.LacksDependencies (shallow full : AnalysisResult) : Prop where
  project : shallow.project = full.project
  files : shallow.files = full.files.map FileFacts.withoutDependencies
  complexity : shallow.complexity = full.complexity
  log : shallow.log = full.log
  incomplete : shallow.incomplete = full.incomplete
  nodes : shallow.graph.nodes.toList =
    full.graph.nodes.toList.filter fun n => n.kind == .module || n.kind == .symbol
  cycleOf? : ∀ i, shallow.graph.cycleOf? i = none
  edges : shallow.graph.edges = #[]
  cycles : shallow.graph.cycles = []
  patterns : shallow.patterns = []

theorem Analyzer.analyze_shallow {a : Analyzer} (hregistry : a.registry = .builtin)
    (hlimit : a.config.fileTimeoutMs = 0) (cancelled : SourceFile → Bool) (s : ProjectStructure) :
    ((a.atDepth .shallow).analyze cancelled s).LacksDependencies
      ((a.atDepth .full).analyze cancelled s) := by
  have hrun := run_shallow hregistry hlimit cancelled s.files
  unfold analyze
  rw [hrun]
  -- All else is computed from the slots, so it no longer matters which run gave them.
  generalize (a.atDepth .full).run cancelled s.files = full
  have hgraph := DependencyGraph.ofFiles_withoutDependencies full.files
  have hedges :
      (DependencyGraph.ofFiles (full.files.map FileFacts.withoutDependencies)).edges = #[] := by
    rw [hgraph]
    exact GraphBuilder.declared_edges full.files
  have hcycles := (DependencyGraph.ofFiles_closed _).cycles_eq_nil hedges
  have hcycleOf : ∀ i, (DependencyGraph.ofFiles
      (full.files.map FileFacts.withoutDependencies)).cycleOf? i = none := by
    intro i
    rw [DependencyGraph.cycleOf?, hcycles]
    rfl
  have hnodes := DependencyGraph.filter_nodes_ofFiles full.files
  exact {
    project := rfl
    files := rfl
    complexity := ComplexitySummary.ofFiles_withoutDependencies full.files
    log := rfl
    incomplete := rfl
    nodes := (congrArg (fun g => g.nodes.toList) hgraph).trans hnodes.symm
    cycleOf? := hcycleOf
    edges := hedges
    cycles := hcycles
    patterns := rfl }

/-- A project has the same structure at both depths, and with the plugins of the grammars and no
limit of time a shallow analysis gives what a full one gives without all that comes from
dependencies. The nodes of its graph are the modules and symbols of the other one, and nothing
connects them. -/
theorem shallow_lacks_dependencies (tree : FileTree) (root : Path) (config : Config)
    (hlimit : config.fileTimeoutMs = 0) :
    scan tree root { config with depth := .shallow } =
      scan tree root { config with depth := .full } ∧
    ∀ (contents : SourceFile → Except String Syntax.Source) (cancelled : SourceFile → Bool)
      (s : ProjectStructure),
      (Analyzer.analyze ⟨{ config with depth := .shallow }, .builtin, contents⟩
        cancelled s).LacksDependencies
        (Analyzer.analyze ⟨{ config with depth := .full }, .builtin, contents⟩ cancelled s) := by
  refine ⟨rfl, ?_⟩
  intro contents cancelled s
  exact Analyzer.analyze_shallow (a := ⟨config, .builtin, contents⟩) rfl hlimit cancelled s

def importingSource : Syntax.Source :=
  .plain "use App;\n".toUTF8

def singleFile : ProjectStructure :=
  .ofFiles ⟨"."⟩ [.ofPath ⟨"a.php"⟩ .php 9] []

theorem shallow_lacks_dependencies_singleFile :
    (scan (.dir [("a.php", .file importingSource)]) ⟨"."⟩
        { fileTimeoutMs := 0, depth := .shallow } =
      scan (.dir [("a.php", .file importingSource)]) ⟨"."⟩
        { fileTimeoutMs := 0, depth := .full }) ∧
    (Analyzer.analyze ⟨{ fileTimeoutMs := 0, depth := .shallow }, .builtin,
        fun _ => .ok importingSource⟩ (fun _ => false) singleFile).LacksDependencies
      (Analyzer.analyze ⟨{ fileTimeoutMs := 0, depth := .full }, .builtin,
        fun _ => .ok importingSource⟩ (fun _ => false) singleFile) ∧
    (Analyzer.analyze ⟨{ fileTimeoutMs := 0, depth := .full }, .builtin,
        fun _ => .ok importingSource⟩ (fun _ => false) singleFile).dependencyCount = 1 := by
  have hlacks := shallow_lacks_dependencies (.dir [("a.php", .file importingSource)]) ⟨"."⟩
    { fileTimeoutMs := 0 } rfl
  exact ⟨hlacks.1, hlacks.2 (fun _ => .ok importingSource) (fun _ => false) singleFile,
    by decide +kernel⟩

end CodeAtlas
