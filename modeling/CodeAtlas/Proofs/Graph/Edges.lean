import CodeAtlas.Proofs.Graph.Declaration
import Mathlib.Data.List.Forall2
import Mathlib.Tactic.Common
/-!
The edges of a graph. Adding an edge leaves the declared nodes and the index of their names alone;
it may only append a node for a target that nothing defines. So the edges stand in the order of the
dependencies (`edges_follow_dependencies`).
-/
namespace CodeAtlas

theorem forall₂_getElem? {α β : Type} {R : α → β → Prop} {as : List α} {bs : List β}
    (h : List.Forall₂ R as bs) {i : Nat} {b : β} (hb : bs[i]? = some b) :
    ∃ a, as[i]? = some a ∧ R a b := by
  induction h generalizing i with
  | nil => simp at hb
  | @cons a b' as bs hab _ ih =>
    cases i with
    | zero =>
      obtain rfl : b' = b := by simpa using hb
      exact ⟨a, rfl, hab⟩
    | succ i => exact ih (by simpa using hb)

def Slot.origin (s : Slot) (d : Dependency) : Origin :=
  ⟨s.file.path, s.file.language, d.source⟩

namespace GraphBuilder

def found (b : GraphBuilder) (u : Slot × Dependency) : GraphBuilder × Candidate :=
  match b.table.resolve? u.2.target u.2.kind (u.1.origin u.2) with
  | some c => (b, c)
  | none => b.placeholder u.2.target u.2.kind

def edgeOf (b : GraphBuilder) (u : Slot × Dependency) : GraphEdge :=
  ⟨u.1.source u.2.source, (b.found u).2.position, u.2.kind, (b.found u).2.resolution, u.2.target,
    u.2.location⟩

/-- What adding edges may change of the nodes: nodes without a definition come behind the others. -/
structure Extends (b b' : GraphBuilder) : Prop where
  names : b'.table.names = b.table.names
  nodes : ∃ extra, b'.table.nodes.toList = b.table.nodes.toList ++ extra ∧
    ∀ n ∈ extra, n.isExternal = true

namespace Extends

theorem refl (b : GraphBuilder) : b.Extends b :=
  ⟨rfl, [], by simp⟩

theorem trans {b b' b'' : GraphBuilder} (h : b.Extends b') (h' : b'.Extends b'') :
    b.Extends b'' := by
  obtain ⟨extra, hn, hx⟩ := h.nodes
  obtain ⟨extra', hn', hx'⟩ := h'.nodes
  refine ⟨h'.names.trans h.names, extra ++ extra', ?_, ?_⟩
  · rw [hn', hn, List.append_assoc]
  · intro n hmem
    exact (List.mem_append.mp hmem).elim (hx n) (hx' n)

/-- The nodes that were there stay where they are. -/
theorem getElem?_eq {b b' : GraphBuilder} (h : b.Extends b') {i : Nat}
    (hi : i < b.table.nodes.size) : b'.table.nodes[i]? = b.table.nodes[i]? := by
  obtain ⟨extra, hn, -⟩ := h.nodes
  rw [← Array.getElem?_toList, ← Array.getElem?_toList, hn]
  exact List.getElem?_append_left (by simpa using hi)

theorem size_le {b b' : GraphBuilder} (h : b.Extends b') :
    b.table.nodes.size ≤ b'.table.nodes.size := by
  obtain ⟨extra, hn, -⟩ := h.nodes
  have hl := congrArg List.length hn
  simp only [Array.length_toList, List.length_append] at hl
  omega

end Extends

/-- A placeholder adds at most a node. -/
theorem placeholder_extends (b : GraphBuilder) (target : String) (kind : DependencyKind) :
    b.Extends (b.placeholder target kind).1 := by
  unfold placeholder
  split
  rename_i id nodeKind resolution hkind
  have hx : (GraphNode.mk id nodeKind none none none none).isExternal = true := by
    by_cases hi : (kind == .imports) = true
    · rw [if_pos hi] at hkind
      cases hkind
      rfl
    · rw [if_neg hi] at hkind
      cases hkind
      rfl
  split
  · exact .refl b
  · exact ⟨rfl, _, Array.toList_push .., by simpa using hx⟩

theorem placeholder_edges (b : GraphBuilder) (target : String) (kind : DependencyKind) :
    (b.placeholder target kind).1.edges = b.edges := by
  unfold placeholder
  split
  split <;> rfl

theorem found_extends (b : GraphBuilder) (u : Slot × Dependency) : b.Extends (b.found u).1 := by
  unfold found
  split
  · exact .refl b
  · exact placeholder_extends b _ _

theorem found_edges (b : GraphBuilder) (u : Slot × Dependency) :
    (b.found u).1.edges = b.edges := by
  unfold found
  split
  · rfl
  · exact placeholder_edges b _ _

/-- One dependency: its target is found or made, and its edge comes last. -/
theorem use_eq (b : GraphBuilder) (u : Slot × Dependency) :
    b.use u = { (b.found u).1 with edges := b.edges.push (b.edgeOf u) } := by
  rw [← found_edges b u, edgeOf, ← Slot.lookup_nodes]
  rfl

theorem use_edges (b : GraphBuilder) (u : Slot × Dependency) :
    (b.use u).edges = b.edges.push (b.edgeOf u) := by
  rw [use_eq]

theorem use_extends (b : GraphBuilder) (u : Slot × Dependency) : b.Extends (b.use u) := by
  rw [use_eq]
  obtain ⟨hn, hx⟩ := found_extends b u
  exact ⟨hn, hx⟩

/-- What holds of each edge when it is added, under a condition that adding edges keeps, holds of
all edges of a run, position by position. -/
theorem foldl_use {P : GraphBuilder → Prop} {R : GraphEdge → Slot × Dependency → Prop}
    (us : List (Slot × Dependency)) (hP : ∀ b, ∀ u ∈ us, P b → P (b.use u))
    (hR : ∀ b, ∀ u ∈ us, P b → R (b.edgeOf u) u) {b : GraphBuilder} (hb : P b) :
    P (us.foldl use b) ∧ ∃ es, (us.foldl use b).edges.toList = b.edges.toList ++ es ∧
      List.Forall₂ R es us := by
  -- The condition is kept by each step and yields the relation for the edge that the step adds.
  induction us generalizing b with
  | nil => exact ⟨hb, [], by simp⟩
  | cons u us ih =>
    have hstep := hP b u List.mem_cons_self hb
    obtain ⟨hlast, es, hes, hall⟩ := ih (fun b v hv => hP b v (List.mem_cons_of_mem u hv))
      (fun b v hv => hR b v (List.mem_cons_of_mem u hv)) hstep
    refine ⟨hlast, b.edgeOf u :: es, ?_, .cons (hR b u List.mem_cons_self hb) hall⟩
    rw [List.foldl_cons, hes, use_edges, Array.toList_push, List.append_assoc,
      List.singleton_append]

theorem foldl_use_extends (us : List (Slot × Dependency)) (b : GraphBuilder) :
    b.Extends (us.foldl use b) :=
  (foldl_use (R := fun _ _ => True) us (fun b' u _ h => h.trans (use_extends b' u))
    (fun _ _ _ _ => trivial) (.refl b)).1

/-- Declaring appends one node for each declaration, under an identifier that is free. -/
theorem foldl_declare_nodes {R : GraphNode → Declaration → Prop} (hR : ∀ taken d,
      R (d.node (freeId taken d.name (d.node ""))) d) (ds : List Declaration) (b : GraphBuilder) :
    ∃ ns, (ds.foldl declare b).table.nodes.toList = b.table.nodes.toList ++ ns ∧
      List.Forall₂ R ns ds := by
  induction ds generalizing b with
  | nil => exact ⟨[], by simp⟩
  | cons d ds ih =>
    obtain ⟨ns, hns, hall⟩ := ih (b.declare d)
    refine ⟨d.node (freeId b.index d.name (d.node "")) :: ns, ?_, .cons (hR b.index d) hall⟩
    have hd : (b.declare d).table.nodes =
        b.table.nodes.push (d.node (freeId b.index d.name (d.node ""))) := rfl
    rw [List.foldl_cons, hns, hd, Array.toList_push, List.append_assoc, List.singleton_append]

theorem foldl_declare_edges (ds : List Declaration) (b : GraphBuilder) :
    (ds.foldl declare b).edges = b.edges := by
  induction ds generalizing b with
  | nil => rfl
  | cons d ds ih => exact (ih (b.declare d)).trans rfl

theorem declared_nodes (files : List FileFacts) :
    List.Forall₂ (fun n d => n = d.node n.id) (declared files).table.nodes.toList
      (declarations files) := by
  obtain ⟨ns, hns, hall⟩ := foldl_declare_nodes (R := fun n d => n = d.node n.id)
    (fun _ _ => rfl) (declarations files) empty
  rw [declared, hns]
  exact hall

/-- The node of a declaration lies at the position of the declaration. -/
theorem declared_node {files : List FileFacts} {i : Nat} {d : Declaration}
    (h : (declarations files)[i]? = some d) :
    ∃ id, (declared files).table.nodes[i]? = some (d.node id) := by
  obtain ⟨n, hn, hd⟩ := forall₂_getElem? (declared_nodes files) h
  rw [Array.getElem?_toList] at hn
  exact ⟨n.id, hd ▸ hn⟩

theorem declared_edges (files : List FileFacts) : (declared files).edges = #[] :=
  foldl_declare_edges _ _

theorem declared_size (files : List FileFacts) :
    (declared files).table.nodes.size = (declarations files).length := by
  rw [declared, foldl_declare_size]
  exact Nat.zero_add _

end GraphBuilder

/-- What holds of each edge when it is added holds of all edges of the finished graph. -/
theorem forall₂_edges {R : GraphEdge → Slot × Dependency → Prop} (files : List FileFacts)
    (hR : ∀ b : GraphBuilder, (GraphBuilder.declared files).Extends b → ∀ u ∈ uses files,
      R (b.edgeOf u) u) :
    List.Forall₂ R (DependencyGraph.ofFiles files).edges.toList (uses files) := by
  obtain ⟨-, es, hes, hall⟩ := GraphBuilder.foldl_use (uses files)
    (fun b u _ h => h.trans (b.use_extends u)) (fun b u hu h => hR b h u hu)
    (GraphBuilder.Extends.refl (.declared files))
  rw [GraphBuilder.declared_edges] at hes
  rw [ofFiles_eq]
  exact hes ▸ hall

/-- The dependencies of the slots are those of the files, in order. -/
theorem map_snd_uses (files : List FileFacts) :
    (uses files).map Prod.snd = files.flatMap FileFacts.dependencies := by
  rw [uses]
  generalize 0 = start
  induction files generalizing start with
  | nil => rfl
  | cons f rest ih =>
    rw [Slot.fill, List.flatMap_cons, List.map_append, ih, List.flatMap_cons]
    simp [Slot.uses, Function.comp_def]

theorem slot_mem_of_mem_uses {files : List FileFacts} {u : Slot × Dependency}
    (h : u ∈ uses files) : u.1 ∈ Slot.fill 0 files := by
  obtain ⟨s, hs, hu⟩ := List.mem_flatMap.mp h
  obtain ⟨d, -, rfl⟩ := List.mem_map.mp hu
  exact hs

/-- The dependencies of a project and its edges agree position by position. Each edge carries the
kind, the target and the location of its dependency, and starts at the first node of the own slot of
the dependency, the module before the symbols, that is declared under the source, or else at the
module. The nodes are those of the declarations, slot by slot, and then only nodes that stand for
what nothing defines. -/
theorem edges_follow_dependencies (files : List FileFacts) :
    (uses files).map Prod.snd = files.flatMap FileFacts.dependencies ∧
    List.Forall₂ (fun e u => e.kind = u.2.kind ∧ e.targetName = u.2.target ∧
        e.location = u.2.location ∧ e.source = u.1.source u.2.source)
      (DependencyGraph.ofFiles files).edges.toList (uses files) ∧
    (∀ u ∈ uses files,
      u.1.file.declarations <+: (declarations files).drop u.1.start) ∧
    ∃ declared extra, (DependencyGraph.ofFiles files).nodes.toList = declared ++ extra ∧
      List.Forall₂ (fun n d => n = d.node n.id) declared (declarations files) ∧
      ∀ n ∈ extra, n.isExternal = true := by
  refine ⟨map_snd_uses files, ?_, ?_, ?_⟩
  · exact forall₂_edges files fun b _ u _ => ⟨rfl, rfl, rfl, rfl⟩
  · intro u hu
    exact (fill_declarations (slot_mem_of_mem_uses hu)).2
  · obtain ⟨extra, hn, hx⟩ := (GraphBuilder.foldl_use_extends (uses files) (.declared files)).nodes
    refine ⟨_, extra, ?_, GraphBuilder.declared_nodes files, hx⟩
    rw [ofFiles_eq]
    exact hn

/-- The position of the first symbol of the slot with a full name, or of the module, where the name
of the module itself does not count. -/
def Slot.symbolSource (s : Slot) (name : String) : Nat :=
  ((s.file.symbols.findIdx? fun x => x.fullName s.file.moduleId == name).map
    (s.start + 1 + ·)).getD s.start

/-- A file whose module has an empty identifier and declares a symbol with an empty name. -/
def namelessFile : FileFacts where
  path := ⟨"a.py"⟩
  language := .python
  moduleId := ""
  symbols := [⟨"", "", .function, ⟨⟨"a.py"⟩, .ofLines 1 1⟩, none, none, .everyone, none, none⟩]
  dependencies := [⟨"", "x", .call, ⟨⟨"a.py"⟩, .ofLines 1 1⟩⟩]
  metrics := .none
  isPartial := false
  isFallback := false
  error := none

/-- A symbol that shares the identifier of its module is not the source of an edge. -/
theorem edges_not_from_first_symbol : ¬ ∀ files : List FileFacts,
    List.Forall₂ (fun e u => e.source = u.1.symbolSource u.2.source)
      (DependencyGraph.ofFiles files).edges.toList (uses files) := by
  intro h
  have hwant := h [namelessFile]
  have hhave := forall₂_edges (R := fun e u => e.source = u.1.source u.2.source) [namelessFile]
    fun _ _ _ _ => rfl
  have huses : uses [namelessFile] =
      [(⟨0, namelessFile⟩, ⟨"", "x", .call, ⟨⟨"a.py"⟩, .ofLines 1 1⟩⟩)] := rfl
  rw [huses] at hwant hhave
  generalize (DependencyGraph.ofFiles [namelessFile]).edges.toList = es at hwant hhave
  cases hwant with
  | cons hsymbol _ =>
    cases hhave with
    | cons hmodule _ =>
      have hne : Slot.symbolSource ⟨0, namelessFile⟩ "" ≠ Slot.source ⟨0, namelessFile⟩ "" := by
        decide
      exact hne (hsymbol.symm.trans hmodule)

end CodeAtlas
