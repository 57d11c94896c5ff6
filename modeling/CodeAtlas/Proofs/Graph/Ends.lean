import CodeAtlas.Proofs.Graph.Edges
import CodeAtlas.Proofs.Graph.Ranking
/-!
The ends of the edges of a graph are nodes of it: a source lies in the slot of its file, a target
was chosen among the nodes or is in the index, and the index only holds positions of nodes.
-/
namespace CodeAtlas

namespace NodeTable

variable {t : NodeTable} {o : Origin} {c : Candidate}

theorem lookup?_lt {name : String} {isImport : Bool} (h : t.lookup? name isImport o = some c) :
    c.position < t.nodes.size := by
  obtain ⟨n, hn, -⟩ := Candidate.pick?_spec h
  exact (Array.getElem?_eq_some_iff.mp hn).1

theorem package?_lt {target : String} (h : t.package? target o = some c) :
    c.position < t.nodes.size := by
  obtain ⟨name, -, hname⟩ := List.exists_of_findSome?_eq_some h
  obtain ⟨n, hn, -⟩ := Candidate.pick?_spec hname
  exact (Array.getElem?_eq_some_iff.mp hn).1

theorem head?_lt {target : String} (h : t.head? target o = some c) :
    c.position < t.nodes.size := by
  obtain ⟨found, hfound, rfl⟩ := Option.map_eq_some_iff.mp h
  obtain ⟨name, -, hname⟩ := List.exists_of_findSome?_eq_some hfound
  exact lookup?_lt (c := found) hname

/-- What a target is found to mean is a node of the table. -/
theorem resolve?_lt {target : String} {kind : DependencyKind}
    (h : t.resolve? target kind o = some c) : c.position < t.nodes.size := by
  unfold resolve? at h
  split at h
  · rw [Option.orElse_eq_or, Option.orElse_eq_or, Option.or_eq_some_iff,
      Option.or_eq_some_iff] at h
    rcases h with (h | ⟨-, h⟩) | ⟨-, h⟩
    · exact lookup?_lt h
    · exact package?_lt h
    · exact head?_lt h
  · exact lookup?_lt h

end NodeTable

namespace Slot

theorem declarations_length_pos (s : Slot) : 0 < s.file.declarations.length := by
  simp [FileFacts.declarations]

/-- The source of a dependency is the file or one of its symbols. -/
theorem source_lt (s : Slot) (name : String) :
    s.source name < s.start + s.file.declarations.length := by
  have hpos := s.declarations_length_pos
  unfold source
  cases h : s.file.declarations.findIdx? fun d => d.name == name with
  | none => simpa using hpos
  | some i =>
    have hi := (List.findIdx?_eq_some_iff_getElem.mp h).1
    rw [Option.getD_some]
    omega

/-- A slot lies within the declarations. -/
theorem source_lt_length {files : List FileFacts} {s : Slot} (hs : s ∈ fill 0 files)
    (name : String) : s.source name < (declarations files).length := by
  have hbegins := (fill_declarations hs).2.length_le
  have hlt := s.source_lt name
  have hpos := s.declarations_length_pos
  rw [List.length_drop] at hbegins
  omega

end Slot

namespace GraphBuilder

def Located (b : GraphBuilder) : Prop :=
  ∀ (id : String) (i : Nat), b.index[id]? = some i → ∃ n, b.table.nodes[i]? = some n ∧ n.id = id

/-- A node that is appended and indexed is located, and the others stay so. -/
theorem Located.push {b b' : GraphBuilder} (h : b.Located) (n : GraphNode)
    (hnodes : b'.table.nodes = b.table.nodes.push n)
    (hindex : b'.index = b.index.insert n.id b.table.nodes.size) : b'.Located := by
  intro id i hi
  rw [hindex, Std.HashMap.getElem?_insert] at hi
  rw [hnodes]
  by_cases hid : (n.id == id) = true
  · rw [if_pos hid] at hi
    obtain rfl := Option.some.inj hi
    exact ⟨n, Array.getElem?_push_size, beq_iff_eq.mp hid⟩
  · rw [if_neg hid] at hi
    obtain ⟨m, hm, hmid⟩ := h id i hi
    have hlt := (Array.getElem?_eq_some_iff.mp hm).1
    refine ⟨m, ?_, hmid⟩
    rwa [Array.getElem?_push_lt hlt, ← Array.getElem?_eq_getElem hlt]

theorem Located.declare {b : GraphBuilder} (h : b.Located) (d : Declaration) :
    (b.declare d).Located :=
  h.push (d.node (freeId b.index d.name (d.node ""))) rfl rfl

theorem declared_located (files : List FileFacts) : (declared files).Located := by
  refine declared_induction (fun id i hi => ?_) (fun _ d h => h.declare d) files
  simp [empty] at hi

/-- The node of a placeholder exists. -/
theorem Located.placeholder {b : GraphBuilder} (h : b.Located) (target : String)
    (kind : DependencyKind) :
    (b.placeholder target kind).1.Located ∧ (b.placeholder target kind).2.position <
      (b.placeholder target kind).1.table.nodes.size := by
  unfold GraphBuilder.placeholder
  split
  rename_i id nodeKind resolution hkind
  split
  · rename_i position hposition
    obtain ⟨n, hn, -⟩ := h id position hposition
    exact ⟨h, (Array.getElem?_eq_some_iff.mp hn).1⟩
  · exact ⟨h.push _ rfl rfl, by simp⟩

theorem Located.found {b : GraphBuilder} (h : b.Located) (u : Slot × Dependency) :
    (b.found u).1.Located ∧ (b.found u).2.position < (b.found u).1.table.nodes.size := by
  unfold GraphBuilder.found
  split
  · rename_i c hc
    exact ⟨h, NodeTable.resolve?_lt hc⟩
  · exact h.placeholder _ _

/-- The index is right, and edges join nodes. -/
structure Sound (b : GraphBuilder) : Prop where
  located : b.Located
  edges : ∀ e ∈ b.edges.toList,
    e.source < b.table.nodes.size ∧ e.target < b.table.nodes.size

/-- Adding an edge that starts at a node keeps edges between nodes. -/
theorem Sound.use {b : GraphBuilder} (h : b.Sound) (u : Slot × Dependency)
    (hsource : u.1.source u.2.source < b.table.nodes.size) : (b.use u).Sound := by
  have hsize := (found_extends b u).size_le
  obtain ⟨hlocated, htarget⟩ := h.located.found u
  rw [use_eq]
  refine ⟨hlocated, ?_⟩
  intro e he
  change e ∈ (b.edges.push (b.edgeOf u)).toList at he
  change e.source < (b.found u).1.table.nodes.size ∧ e.target < (b.found u).1.table.nodes.size
  rw [Array.toList_push, List.mem_append, List.mem_singleton] at he
  rcases he with he | rfl
  · obtain ⟨hs, ht⟩ := h.edges e he
    omega
  · exact ⟨lt_of_lt_of_le hsource hsize, htarget⟩

/-- With all edges added the index is right, and edges join nodes. -/
theorem foldl_use_sound (files : List FileFacts) :
    ((uses files).foldl use (declared files)).Sound := by
  have hstart : (declared files).Sound :=
    ⟨declared_located files, by simp [declared_edges]⟩
  -- The nodes only grow, so a source that lies in its slot is a node when its edge is added.
  exact (foldl_use (R := fun _ _ => True)
    (P := fun b => (declared files).Extends b ∧ b.Sound) (uses files)
    (fun b u hu h => ⟨h.1.trans (b.use_extends u), h.2.use u (by
      have hslot := Slot.source_lt_length (slot_mem_of_mem_uses hu) u.2.source
      have hsize := h.1.size_le
      rw [declared_size] at hsize
      omega)⟩)
    (fun _ _ _ _ => trivial) ⟨.refl _, hstart⟩).1.2

end GraphBuilder

/-- Both ends of every edge are nodes. -/
theorem ends_lt (files : List FileFacts) : ∀ e ∈ (DependencyGraph.ofFiles files).edges.toList,
    e.source < (DependencyGraph.ofFiles files).nodes.size ∧
      e.target < (DependencyGraph.ofFiles files).nodes.size := by
  rw [ofFiles_eq]
  exact (GraphBuilder.foldl_use_sound files).edges

end CodeAtlas
