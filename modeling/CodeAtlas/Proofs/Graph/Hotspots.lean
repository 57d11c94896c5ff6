import CodeAtlas.Analysis
import CodeAtlas.Proofs.Graph.Identifiers
import CodeAtlas.Proofs.Ranked
/-!
Hotspots and the nodes of their callables. A hotspot carries the full name of its callable, while
the node of the callable carries an identifier that no other node has. So the graph finds the
callable under the identifier of its hotspot exactly if no node that was inserted before has taken
the name (`hotspots_named_iff`).
-/
namespace CodeAtlas

namespace GraphBuilder

theorem foldl_declare_getElem? (ds : List Declaration) (b : GraphBuilder) {i : Nat}
    (hi : i < b.table.nodes.size) :
    (ds.foldl declare b).table.nodes[i]? = b.table.nodes[i]? := by
  obtain ⟨ns, hns, -⟩ := foldl_declare_nodes (R := fun _ _ => True) (fun _ _ => trivial) ds b
  rw [← Array.getElem?_toList, ← Array.getElem?_toList, hns]
  exact List.getElem?_append_left (by simpa using hi)

/-- The index holds the identifiers of the nodes. -/
theorem contains_iff {b : GraphBuilder} (hlocated : b.Located) (hregisters : b.Registers)
    (id : String) : b.index.contains id = true ↔
      ∃ (i : Nat) (n : GraphNode), b.table.nodes[i]? = some n ∧ n.id = id := by
  rw [Std.HashMap.contains_eq_isSome_getElem?, Option.isSome_iff_exists]
  constructor
  · rintro ⟨i, hi⟩
    exact ⟨i, hlocated id i hi⟩
  · rintro ⟨i, n, hn, rfl⟩
    exact ⟨i, hregisters i n hn⟩

theorem freeId_eq_name_iff {taken : Std.HashMap String Nat} {name : String} {node : GraphNode} :
    freeId taken name node = name ↔ taken.contains name = false := by
  refine ⟨fun h => ?_, freeId_of_free node⟩
  have hfresh := freeId_fresh taken name node
  rwa [h] at hfresh

/-- The nodes that stand when a declaration is reached. -/
def before (files : List FileFacts) (i : Nat) : GraphBuilder :=
  ((declarations files).take i).foldl declare empty

section Before

variable {files : List FileFacts} {i : Nat}

theorem before_located : (before files i).Located :=
  List.foldlRecOn _ _ (fun id i hi => by simp [empty] at hi) fun _ h d _ => h.declare d

theorem before_registers : (before files i).Registers :=
  List.foldlRecOn _ _ (fun i n hn => by simp [empty] at hn) fun _ h d _ => h.declare d

theorem before_size (hi : i < (declarations files).length) :
    (before files i).table.nodes.size = i := by
  rw [before, foldl_declare_size, List.length_take, Nat.min_eq_left hi.le]
  exact Nat.zero_add i

theorem declared_eq {d : Declaration} (hd : (declarations files)[i]? = some d) :
    declared files = ((declarations files).drop (i + 1)).foldl declare
      ((before files i).declare d) := by
  obtain ⟨hi, rfl⟩ := List.getElem?_eq_some_iff.mp hd
  rw [← List.foldl_cons, ← List.drop_eq_getElem_cons hi, before, ← List.foldl_append,
    List.take_append_drop, declared]

/-- A declaration keeps its name for an identifier exactly if no earlier node has the name. -/
theorem declared_id_iff {d : Declaration} (hd : (declarations files)[i]? = some d) :
    ∃ id, (declared files).table.nodes[i]? = some (d.node id) ∧
      (id = d.name ↔ ∀ j < i, ∀ n, (declared files).table.nodes[j]? = some n → n.id ≠ d.name) := by
  have hsize := before_size (List.getElem?_eq_some_iff.mp hd).1
  have hstep : ((before files i).declare d).table.nodes = (before files i).table.nodes.push
    (d.node (freeId (before files i).index d.name (d.node ""))) := rfl
  have hlater : ∀ j ≤ i, (declared files).table.nodes[j]? =
      ((before files i).declare d).table.nodes[j]? := by
    intro j hj
    rw [declared_eq hd, foldl_declare_getElem?]
    rw [declare_size]
    omega
  have hearlier : ∀ j < i, (declared files).table.nodes[j]? =
      (before files i).table.nodes[j]? := by
    intro j hj
    have hlt : j < (before files i).table.nodes.size := by omega
    rw [hlater j hj.le, hstep, Array.getElem?_push_lt hlt, Array.getElem?_eq_getElem hlt]
  refine ⟨freeId (before files i).index d.name (d.node ""), ?_, ?_⟩
  · rw [hlater i le_rfl, hstep, Array.getElem?_push, if_pos hsize.symm]
  rw [freeId_eq_name_iff, ← Bool.not_eq_true, contains_iff before_located before_registers]
  push Not
  constructor
  · intro hfree j hj n hn
    exact hfree j n (hearlier j hj ▸ hn)
  · intro hfree j n hn
    have hj : j < i := by
      have := (Array.getElem?_eq_some_iff.mp hn).1
      omega
    exact hfree j hj n ((hearlier j hj).trans hn)

end Before

end GraphBuilder

/-- The name of a declaration leads to its node exactly if no earlier node has it for an identifier;
it leads to some node in any case. -/
theorem node?_name {files : List FileFacts} {i : Nat} {d : Declaration}
    (hd : (declarations files)[i]? = some d) :
    (∃ n, (DependencyGraph.ofFiles files).node? d.name = some n) ∧
    ((DependencyGraph.ofFiles files).node? d.name = (DependencyGraph.ofFiles files).nodes[i]? ↔
      ∀ j < i, ∀ n, (DependencyGraph.ofFiles files).nodes[j]? = some n → n.id ≠ d.name) := by
  obtain ⟨id, hnode, hid⟩ := GraphBuilder.declared_id_iff hd
  have hi := (List.getElem?_eq_some_iff.mp hd).1
  have hg := DependencyGraph.ofFiles_keyed files
  rw [← ofFiles_node hi] at hnode
  have hearlier : (∀ j < i, ∀ n, (GraphBuilder.declared files).table.nodes[j]? = some n →
      n.id ≠ d.name) ↔ ∀ j < i, ∀ n, (DependencyGraph.ofFiles files).nodes[j]? = some n →
        n.id ≠ d.name := by
    refine forall₂_congr fun j hj => ?_
    rw [ofFiles_node (hj.trans hi)]
  rw [hearlier] at hid
  have hown : (DependencyGraph.ofFiles files).node? d.name = some (d.node id) ↔ id = d.name := by
    rw [hg.node?_eq_some_iff]
    exact and_iff_right (Array.mem_toList_iff.mpr (Array.mem_of_getElem? hnode))
  refine ⟨?_, by rw [hnode, hown, hid]⟩
  by_cases hfree : id = d.name
  · exact ⟨_, hown.mpr hfree⟩
  · rw [hid] at hfree
    push Not at hfree
    obtain ⟨j, -, n, hn, hname⟩ := hfree
    exact ⟨n, hname ▸ hg.node?_id hn⟩

section Callables

def FileFacts.callables (f : FileFacts) : List (Declaration × Option Hotspot) :=
  (.ofModule f, none) :: f.symbols.map fun s =>
    (.ofSymbol f s, s.complexity.map fun c => ⟨s.fullName f.moduleId, f.path, s.line, c⟩)

/-- The hotspots of all files, each with the position of the declaration of its callable. -/
def placedHotspots (files : List FileFacts) : List (Nat × Hotspot) :=
  (files.flatMap FileFacts.callables).zipIdx.filterMap fun (c, i) => c.2.map (i, ·)

theorem map_fst_callables (files : List FileFacts) :
    (files.flatMap FileFacts.callables).map Prod.fst = declarations files := by
  rw [List.map_flatMap, declarations]
  refine List.flatMap_congr fun f _ => ?_
  simp [FileFacts.callables, FileFacts.declarations, Function.comp_def]

/-- The placed hotspots are the hotspots, in their order. -/
theorem map_snd_placedHotspots (files : List FileFacts) :
    (placedHotspots files).map Prod.snd = files.flatMap FileFacts.hotspots := by
  have hfile : ∀ f : FileFacts, f.callables.filterMap Prod.snd = f.hotspots := by
    intro f
    simp [FileFacts.callables, FileFacts.hotspots, List.filterMap_map]
  have hplaced : (placedHotspots files).map Prod.snd =
      ((files.flatMap FileFacts.callables).zipIdx.map Prod.fst).filterMap Prod.snd := by
    rw [placedHotspots, List.map_filterMap, List.filterMap_map]
    refine List.filterMap_congr fun c _ => ?_
    simp [Option.map_map, Function.comp_def]
  rw [hplaced, List.zipIdx_map_fst, List.filterMap_flatMap]
  exact List.flatMap_congr fun f _ => hfile f

/-- Callables are placed in the order of their declarations. -/
theorem placedHotspots_pairwise (files : List FileFacts) :
    (placedHotspots files).Pairwise fun p q => p.1 < q.1 := by
  have hpositions : ((files.flatMap FileFacts.callables).zipIdx.map Prod.snd).Pairwise
      (· < ·) := by
    rw [List.zipIdx_map_snd]
    exact List.pairwise_lt_range'
  rw [List.pairwise_map] at hpositions
  rw [placedHotspots, List.pairwise_filterMap]
  refine hpositions.imp fun {c c'} hlt p hp p' hp' => ?_
  obtain ⟨h, -, rfl⟩ := Option.map_eq_some_iff.mp hp
  obtain ⟨h', -, rfl⟩ := Option.map_eq_some_iff.mp hp'
  exact hlt

theorem map_fst_placedHotspots_nodup (files : List FileFacts) :
    ((placedHotspots files).map Prod.fst).Nodup := by
  rw [List.Nodup, List.pairwise_map]
  exact (placedHotspots_pairwise files).imp fun h => Nat.ne_of_lt h

/-- The callable of a hotspot is declared at its position. -/
theorem exists_callable_of_mem {files : List FileFacts} {p : Nat × Hotspot}
    (hp : p ∈ placedHotspots files) :
    ∃ f ∈ files, ∃ s ∈ f.symbols, (declarations files)[p.1]? = some (.ofSymbol f s) ∧
      s.complexity = some p.2.complexity ∧ p.2.id = s.fullName f.moduleId ∧ p.2.file = f.path ∧
      p.2.line = s.line := by
  obtain ⟨⟨c, i⟩, hc, hhotspot⟩ := List.mem_filterMap.mp hp
  obtain ⟨h, hh, rfl⟩ := Option.map_eq_some_iff.mp hhotspot
  rw [List.mem_zipIdx_iff_getElem?] at hc
  obtain ⟨f, hf, hmem⟩ := List.mem_flatMap.mp (List.mem_of_getElem? hc)
  have hdeclared : (declarations files)[i]? = some c.1 := by
    rw [← map_fst_callables, List.getElem?_map, hc, Option.map_some]
  rcases List.mem_cons.mp hmem with rfl | hmem
  · cases hh
  · obtain ⟨s, hs, rfl⟩ := List.mem_map.mp hmem
    obtain ⟨k, hk, rfl⟩ := Option.map_eq_some_iff.mp hh
    exact ⟨f, hf, s, hs, hdeclared, hk, rfl, rfl, rfl⟩

def ComplexitySummary.listed (files : List FileFacts) : List (Nat × Hotspot) :=
  (rankedBy (fun p => p.2.complexity) (placedHotspots files)).take hotspotLimit

/-- The positions move along: the order looks at the hotspots only. -/
theorem ComplexitySummary.map_snd_listed (files : List FileFacts) :
    (listed files).map Prod.snd = (ofFiles files).hotspots := by
  have hranked : (rankedBy (fun p => p.2.complexity) (placedHotspots files)).map Prod.snd =
      ranked (files.flatMap FileFacts.hotspots) := by
    rw [← map_snd_placedHotspots]
    exact List.map_mergeSort fun _ _ _ _ => rfl
  rw [listed, List.map_take, hranked]
  rfl

/-- Each hotspot of the summary can be given the position of its callable. -/
theorem exists_placed_hotspots (files : List FileFacts) :
    ∃ placed : List (Nat × Hotspot), placed ⊆ placedHotspots files ∧
      (placed.map Prod.fst).Nodup ∧
      placed.map Prod.snd = (ComplexitySummary.ofFiles files).hotspots := by
  have hperm := (rankedBy_perm (placedHotspots files) :
    (rankedBy (fun p => p.2.complexity) (placedHotspots files)).Perm (placedHotspots files))
  refine ⟨ComplexitySummary.listed files, ?_, ?_, ComplexitySummary.map_snd_listed files⟩
  · exact List.Subset.trans (List.take_subset _ _) hperm.subset
  · have hnodup := (hperm.map Prod.fst).nodup_iff.mpr (map_fst_placedHotspots_nodup files)
    exact hnodup.sublist ((List.take_sublist _ _).map _)

end Callables

/-- What a graph knows of a hotspot whose callable is declared at a position. -/
structure Hotspot.Stands (files : List FileFacts) (g : DependencyGraph) (i : Nat) (h : Hotspot) :
    Prop where
  callable : ∃ f ∈ files, ∃ s ∈ f.symbols, (declarations files)[i]? = some (.ofSymbol f s) ∧
    s.complexity = some h.complexity ∧ h.id = s.fullName f.moduleId
  node : ∃ n, g.nodes[i]? = some n ∧ n.kind = .symbol ∧ n.file = some h.file ∧ n.line = some h.line
  found : ∃ n, g.node? h.id = some n
  /-- That node is the one of the callable unless the name was taken. -/
  own_iff : g.node? h.id = g.nodes[i]? ↔
    ∀ j < i, ∀ n, g.nodes[j]? = some n → n.id ≠ h.id

/-- A placed hotspot stands at the node of its callable. -/
theorem stands_of_mem {files : List FileFacts} {p : Nat × Hotspot}
    (hp : p ∈ placedHotspots files) :
    p.2.Stands files (DependencyGraph.ofFiles files) p.1 := by
  obtain ⟨f, hf, s, hs, hdeclared, hcomplexity, hid, hfile, hline⟩ := exists_callable_of_mem hp
  obtain ⟨hfound, hown⟩ := node?_name hdeclared
  obtain ⟨id, hnode⟩ := GraphBuilder.declared_node hdeclared
  rw [← ofFiles_node (List.getElem?_eq_some_iff.mp hdeclared).1] at hnode
  have hname : (Declaration.ofSymbol f s).name = p.2.id := hid.symm
  rw [hname] at hfound hown
  refine ⟨⟨f, hf, s, hs, hdeclared, hcomplexity, hid⟩, ⟨_, hnode, rfl, ?_, ?_⟩, hfound, hown⟩
  · rw [hfile]
    rfl
  · rw [hline]
    rfl

/-- Hotspots and nodes of one result. Every hotspot is one callable of the run, no two are the same,
and its identifier always leads to a node. That is the node of the callable, with its file and its
line, exactly if no node that was inserted before carries the identifier. -/
theorem hotspots_named_iff (s : ProjectStructure) (depth : Depth) (run : Run) :
    let r := AnalysisResult.ofRun s depth run
    ∃ positions : List Nat, positions.Nodup ∧
      List.Forall₂ (fun i h => h.Stands r.files r.graph i) positions r.complexity.hotspots := by
  obtain ⟨placed, hmem, hnodup, hhotspots⟩ := exists_placed_hotspots run.files
  refine ⟨placed.map Prod.fst, hnodup, ?_⟩
  change List.Forall₂ _ _ (ComplexitySummary.ofFiles run.files).hotspots
  rw [← hhotspots, List.forall₂_map_left_iff, List.forall₂_map_right_iff, List.forall₂_same]
  exact fun p hp => stands_of_mem (hmem hp)

/-- A file with two functions of one name. -/
def twiceDefined : FileFacts :=
  let function (line : Nat) : Symbol :=
    ⟨"f", "f", .function, ⟨⟨"a.php"⟩, .ofLines line (line + 1)⟩, none, none, .everyone, none,
      some 1⟩
  { path := ⟨"a.php"⟩
    language := .php
    moduleId := "a"
    symbols := [function 1, function 3]
    dependencies := []
    metrics := .none
    isPartial := true
    isFallback := true
    error := none }

/-- The second of two functions of one name is a hotspot whose identifier leads to the first. -/
theorem hotspots_not_named : ¬ ∀ (s : ProjectStructure) (depth : Depth) (run : Run),
    ∀ h ∈ (AnalysisResult.ofRun s depth run).complexity.hotspots, ∃ n,
      (AnalysisResult.ofRun s depth run).graph.node? h.id = some n ∧ n.file = some h.file ∧
        n.line = some h.line := by
  intro h
  have hsorted : (⟨"a.f", ⟨"a.php"⟩, 3, 1⟩ : Hotspot) ∈
      ComplexitySummary.ranked ([twiceDefined].flatMap FileFacts.hotspots) := by
    rw [ComplexitySummary.ranked, List.mem_mergeSort]
    decide +kernel
  have hshort : (ComplexitySummary.ranked ([twiceDefined].flatMap FileFacts.hotspots)).length ≤
      hotspotLimit := by
    rw [ComplexitySummary.ranked, List.length_mergeSort]
    decide +kernel
  obtain ⟨n, hn, -, hline⟩ := h (.ofFiles ⟨"."⟩ [] []) .full ⟨[twiceDefined], ⟨[]⟩, false⟩ _
    ((List.take_of_length_le hshort).symm ▸ hsorted)
  let g := DependencyGraph.ofFiles [twiceDefined]
  have hmodule : g.node? "a" = g.nodes[0]? :=
    (node?_name (d := .ofModule twiceDefined) rfl).2.mpr fun j hj => absurd hj (Nat.not_lt_zero j)
  have hfirst : g.node? "a.f" = g.nodes[1]? := by
    refine (node?_name (d := .ofSymbol twiceDefined twiceDefined.symbols[0]) rfl).2.mpr ?_
    intro j hj m hm
    obtain rfl : j = 0 := by omega
    have hid := ((DependencyGraph.ofFiles_keyed _).node?_eq_some_iff "a" m).mp (hmodule.trans hm)
    rw [hid.2]
    decide
  have hdeclared : (declarations [twiceDefined])[1]? =
      some (.ofSymbol twiceDefined twiceDefined.symbols[0]) := rfl
  obtain ⟨id, hnode⟩ := GraphBuilder.declared_node hdeclared
  rw [← ofFiles_node (by decide), ← hfirst] at hnode
  obtain rfl := Option.some.inj (hn.symm.trans hnode)
  have hlines : (1 : Nat) = 3 := Option.some.inj hline
  omega

end CodeAtlas
