import CodeAtlas.Proofs.Graph.Ends
import Mathlib.Data.List.Nodup
import Mathlib.Data.List.Perm.Subperm
import Std.Data.String.ToNat
/-!
Identifiers of nodes. A name that is taken is told apart by the first place that is free, and there
always is one; so no two nodes share an identifier, and the index leads from an identifier to its
node and from there to the edges of the node (`identifiers_are_unique`).
-/
namespace CodeAtlas

namespace GraphBuilder

theorem placedId_succ (name : String) (node : GraphNode) (n : Nat) :
    placedId name node (n + 1) = placedId name node 0 ++ "#" ++ toString (n + 2) := by
  simp [placedId]

/-- The places that are tried for a taken name are all different. -/
theorem placedId_injective (name : String) (node : GraphNode) :
    Function.Injective (placedId name node) := by
  have hlonger : ∀ n, placedId name node 0 ≠ placedId name node (n + 1) := by
    intro n h
    have hl := congrArg String.length h
    rw [placedId_succ, String.length_append, String.length_append] at hl
    have hone : "#".length = 1 := rfl
    omega
  intro m n h
  cases m with
  | zero =>
    cases n with
    | zero => rfl
    | succ n => exact absurd h (hlonger n)
  | succ m =>
    cases n with
    | zero => exact absurd h.symm (hlonger m)
    | succ n =>
      rw [placedId_succ, placedId_succ] at h
      have hnumber : (m + 2).repr = (n + 2).repr := String.append_right_inj _ |>.mp h
      have hsucc := Nat.repr_inj.mp hnumber
      omega

section FreeId

variable {taken : Std.HashMap String Nat} {name : String}

/-- Only finitely many identifiers are taken, so one of the places is free. -/
theorem exists_free (taken : Std.HashMap String Nat) (name : String) (node : GraphNode) :
    ∃ n < taken.size + 1, taken.contains (placedId name node n) = false := by
  by_contra hnone
  push Not at hnone
  -- Otherwise one entry more than there are would be taken, since the places are all different.
  have hsub : (List.range (taken.size + 1)).map (placedId name node) ⊆ taken.keys := by
    intro id hid
    obtain ⟨n, hn, rfl⟩ := List.mem_map.mp hid
    have hcontains := eq_true_of_ne_false (hnone n (List.mem_range.mp hn))
    exact Std.HashMap.mem_keys.mpr (Std.HashMap.contains_iff_mem.mp hcontains)
  have hnodup : ((List.range (taken.size + 1)).map (placedId name node)).Nodup :=
    List.Nodup.map (placedId_injective name node) List.nodup_range
  have hlength := (hnodup.subperm hsub).length_le
  rw [List.length_map, List.length_range, Std.HashMap.length_keys] at hlength
  omega

theorem freeId_of_free (node : GraphNode) (h : taken.contains name = false) :
    freeId taken name node = name := by
  rw [freeId, h, Bool.not_false, if_pos rfl]

/-- The first place that is free becomes the identifier. -/
theorem freeId_of_taken (node : GraphNode) (h : taken.contains name = true) :
    ∃ n, freeId taken name node = placedId name node n ∧
      taken.contains (placedId name node n) = false ∧
      ∀ m < n, taken.contains (placedId name node m) = true := by
  obtain ⟨k, hk, hfree⟩ := exists_free taken name node
  rw [freeId, h, Bool.not_true, if_neg Bool.false_ne_true]
  dsimp only
  rw [List.find?_map]
  cases hfind : (List.range (taken.size + 1)).find?
      ((fun id => !taken.contains id) ∘ placedId name node) with
  | none =>
    have hnone := List.find?_eq_none.mp hfind k (List.mem_range.mpr hk)
    simp [hfree] at hnone
  | some n =>
    obtain ⟨hn, -, hfirst⟩ := List.find?_range_eq_some.mp hfind
    refine ⟨n, rfl, by simpa using hn, ?_⟩
    intro m hm
    simpa using hfirst m hm

theorem freeId_fresh (taken : Std.HashMap String Nat) (name : String) (node : GraphNode) :
    taken.contains (freeId taken name node) = false := by
  cases h : taken.contains name with
  | false => rwa [freeId_of_free node h]
  | true =>
    obtain ⟨n, hn, hfree, -⟩ := freeId_of_taken node h
    rwa [hn]

end FreeId

/-- The index knows the position of every node by its identifier. -/
def Registers (b : GraphBuilder) : Prop :=
  ∀ (i : Nat) (n : GraphNode), b.table.nodes[i]? = some n → b.index[n.id]? = some i

/-- A node with a new identifier that is appended and indexed is registered with the others. -/
theorem Registers.push {b b' : GraphBuilder} (h : b.Registers) (n : GraphNode)
    (hfresh : b.index[n.id]? = none) (hnodes : b'.table.nodes = b.table.nodes.push n)
    (hindex : b'.index = b.index.insert n.id b.table.nodes.size) : b'.Registers := by
  intro i m hm
  rw [hnodes, Array.getElem?_push] at hm
  rw [hindex, Std.HashMap.getElem?_insert]
  split at hm
  · rename_i hi
    obtain rfl := Option.some.inj hm
    rw [if_pos (beq_self_eq_true _), hi]
  · have hold := h i m hm
    have hne : (n.id == m.id) = false := by
      rw [beq_eq_false_iff_ne]
      intro heq
      rw [heq, hold] at hfresh
      cases hfresh
    rw [hne, if_neg Bool.false_ne_true, hold]

theorem Registers.declare {b : GraphBuilder} (h : b.Registers) (d : Declaration) :
    (b.declare d).Registers := by
  refine h.push (d.node (freeId b.index d.name (d.node ""))) ?_ rfl rfl
  exact Std.HashMap.getElem?_eq_none_of_contains_eq_false (freeId_fresh b.index d.name _)

theorem declared_registers (files : List FileFacts) : (declared files).Registers := by
  refine declared_induction (fun i n hn => ?_) (fun _ d h => h.declare d) files
  simp [empty] at hn

theorem Registers.placeholder {b : GraphBuilder} (h : b.Registers) (target : String)
    (kind : DependencyKind) : (b.placeholder target kind).1.Registers := by
  unfold GraphBuilder.placeholder
  split
  split
  · exact h
  · rename_i hnone
    exact h.push _ hnone rfl rfl

theorem Registers.use {b : GraphBuilder} (h : b.Registers) (u : Slot × Dependency) :
    (b.use u).Registers := by
  have hfound : (b.found u).1.Registers := by
    unfold GraphBuilder.found
    split
    · exact h
    · exact h.placeholder _ _
  rw [use_eq]
  exact hfound

end GraphBuilder

namespace DependencyGraph

/-- The index of a graph holds the positions of its nodes by their identifiers and nothing else, and
its edges join its nodes. -/
structure Keyed (g : DependencyGraph) : Prop where
  index_eq_some_iff : ∀ (id : String) (i : Nat),
    g.index[id]? = some i ↔ ∃ n, g.nodes[i]? = some n ∧ n.id = id
  ends_lt : ∀ e ∈ g.edges.toList, e.source < g.nodes.size ∧ e.target < g.nodes.size

theorem view?_eq_some_iff {g : DependencyGraph} {e : GraphEdge} {v : EdgeView} :
    g.view? e = some v ↔
      g.nodes[e.source]? = some v.source ∧ g.nodes[e.target]? = some v.target ∧ v.edge = e := by
  obtain ⟨source, target, edge⟩ := v
  unfold view?
  cases g.nodes[e.source]? <;> cases g.nodes[e.target]? <;> simp [eq_comm]

namespace Keyed

variable {g : DependencyGraph} (hg : g.Keyed)
include hg

/-- No id is given twice. -/
theorem ids_nodup : (g.nodes.toList.map GraphNode.id).Nodup := by
  rw [List.nodup_iff_getElem?_ne_getElem?]
  intro i j hij hj heq
  rw [List.length_map, Array.length_toList] at hj
  rw [List.getElem?_map, List.getElem?_map, Array.getElem?_toList, Array.getElem?_toList,
    Array.getElem?_eq_getElem hj, Array.getElem?_eq_getElem (hij.trans hj)] at heq
  have hid : g.nodes[i].id = g.nodes[j].id := Option.some.inj heq
  have hi' := (hg.index_eq_some_iff _ i).mpr ⟨_, Array.getElem?_eq_getElem (hij.trans hj), hid⟩
  have hj' := (hg.index_eq_some_iff _ j).mpr ⟨_, Array.getElem?_eq_getElem hj, rfl⟩
  exact hij.ne (Option.some.inj (hi'.symm.trans hj'))

/-- Looking up an identifier finds the node that carries it, if there is one. -/
theorem node?_eq_some_iff (id : String) (n : GraphNode) :
    g.node? id = some n ↔ n ∈ g.nodes.toList ∧ n.id = id := by
  unfold node?
  rw [Option.bind_eq_some_iff]
  constructor
  · rintro ⟨i, hi, hn⟩
    obtain ⟨m, hm, hid⟩ := (hg.index_eq_some_iff id i).mp hi
    obtain rfl := Option.some.inj (hn.symm.trans hm)
    exact ⟨Array.mem_toList_iff.mpr (Array.mem_of_getElem? hn), hid⟩
  · rintro ⟨hn, hid⟩
    obtain ⟨i, hi⟩ := List.getElem?_of_mem hn
    rw [Array.getElem?_toList] at hi
    exact ⟨i, (hg.index_eq_some_iff id i).mpr ⟨n, hi, hid⟩, hi⟩

theorem node?_id {i : Nat} {n : GraphNode} (h : g.nodes[i]? = some n) : g.node? n.id = some n :=
  (hg.node?_eq_some_iff n.id n).mpr ⟨Array.mem_toList_iff.mpr (Array.mem_of_getElem? h), rfl⟩

/-- Every edge is viewed, in order. -/
theorem map_edge_views : g.views.map EdgeView.edge = g.edges.toList := by
  unfold views
  rw [List.map_filterMap]
  have hall : ∀ e ∈ g.edges.toList, (g.view? e).map EdgeView.edge = some e := by
    intro e he
    obtain ⟨hs, ht⟩ := hg.ends_lt e he
    unfold view?
    rw [Array.getElem?_eq_getElem hs, Array.getElem?_eq_getElem ht]
    rfl
  rw [List.filterMap_congr hall, List.filterMap_some]

/-- Selecting edges by the position at one end is selecting their views by the identifier there. -/
theorem adjacent_eq (side : GraphEdge → Nat) (node : EdgeView → GraphNode)
    (hend : ∀ e v, g.view? e = some v → g.nodes[side e]? = some (node v)) (id : String) :
    (match g.index[id]? with
      | none => []
      | some i => (g.edges.toList.filter fun e => side e == i).filterMap g.view?) =
    g.views.filter fun v => (node v).id == id := by
  have hkey : ∀ e v, g.view? e = some v → ((node v).id = id ↔ g.index[id]? = some (side e)) := by
    intro e v hv
    rw [hg.index_eq_some_iff, hend e v hv]
    simp
  unfold views
  rw [List.filter_filterMap]
  cases hid : g.index[id]? with
  | none =>
    refine (List.filterMap_eq_nil_iff.mpr fun e _ => ?_).symm
    rw [Option.filter_eq_none_iff]
    intro v hv
    rw [beq_iff_eq, hkey e v hv, hid]
    simp
  | some i =>
    dsimp only
    rw [List.filterMap_filter]
    refine List.filterMap_congr fun e _ => ?_
    cases hv : g.view? e with
    | none => simp
    | some v =>
      have hiff := hkey e v hv
      rw [hid, Option.some.injEq] at hiff
      by_cases hi : i = side e
      · have heq := hiff.mpr hi
        simp [hi, heq, Option.filter]
      · have hne := mt hiff.mp hi
        simp [Ne.symm hi, hne, Option.filter]

theorem outgoing_eq (id : String) :
    g.outgoing id = g.views.filter fun v => v.source.id == id :=
  hg.adjacent_eq GraphEdge.source EdgeView.source (fun _ _ h => (view?_eq_some_iff.mp h).1) id

theorem incoming_eq (id : String) :
    g.incoming id = g.views.filter fun v => v.target.id == id :=
  hg.adjacent_eq GraphEdge.target EdgeView.target (fun _ _ h => (view?_eq_some_iff.mp h).2.1) id

theorem ends_found {v : EdgeView} (h : v ∈ g.views) :
    g.node? v.source.id = some v.source ∧ g.node? v.target.id = some v.target := by
  obtain ⟨e, -, hv⟩ := List.mem_filterMap.mp h
  obtain ⟨hs, ht, -⟩ := view?_eq_some_iff.mp hv
  exact ⟨hg.node?_id hs, hg.node?_id ht⟩

end Keyed

/-- In a graph the nodes are found by their ids, and by nothing else. -/
theorem ofFiles_keyed (files : List FileFacts) : (ofFiles files).Keyed := by
  have hlocated := (GraphBuilder.foldl_use_sound files).located
  have hregisters := (GraphBuilder.foldl_use (R := fun _ _ => True) (uses files)
    (fun _ u _ h => h.use u) (fun _ _ _ _ => trivial)
    (GraphBuilder.declared_registers files)).1
  refine ⟨?_, CodeAtlas.ends_lt files⟩
  rw [ofFiles_eq]
  intro id i
  constructor
  · exact hlocated id i
  · rintro ⟨n, hn, rfl⟩
    exact hregisters i n hn

end DependencyGraph

/-- The nodes of the declarations stay at their positions while edges are added. -/
theorem ofFiles_node {files : List FileFacts} {i : Nat} (hi : i < (declarations files).length) :
    (DependencyGraph.ofFiles files).nodes[i]? =
      (GraphBuilder.declared files).table.nodes[i]? := by
  rw [ofFiles_eq]
  exact (GraphBuilder.foldl_use_extends (uses files) (.declared files)).getElem?_eq
    (by rwa [GraphBuilder.declared_size])

/-- Files that come later declare their nodes behind those of the earlier ones. -/
theorem ofFiles_append_node (files more : List FileFacts) {i : Nat}
    (hi : i < (declarations files).length) :
    (DependencyGraph.ofFiles (files ++ more)).nodes[i]? =
      (DependencyGraph.ofFiles files).nodes[i]? := by
  have happend : declarations (files ++ more) = declarations files ++ declarations more :=
    List.flatMap_append
  have hlength : i < (declarations (files ++ more)).length := by
    rw [happend, List.length_append]
    omega
  rw [ofFiles_node hi, ofFiles_node hlength]
  obtain ⟨ns, hns, -⟩ := GraphBuilder.foldl_declare_nodes (R := fun _ _ => True)
    (fun _ _ => trivial) (declarations more) (.declared files)
  have hdeclared : GraphBuilder.declared (files ++ more) =
      (declarations more).foldl GraphBuilder.declare (.declared files) := by
    rw [GraphBuilder.declared, happend, List.foldl_append]
    rfl
  rw [hdeclared, ← Array.getElem?_toList, ← Array.getElem?_toList, hns]
  refine List.getElem?_append_left ?_
  rwa [Array.length_toList, GraphBuilder.declared_size]

/-- Identifiers name nodes. No two nodes of a graph share one, since a name that is taken gets the
first of its places that is free, and one of them is. Looking up an identifier gives the node that
carries it, and nothing for any other text; the ends of all edges are found in this way, and the
edges that leave or enter an identifier are those of all edges whose source or target carries it, in
order. Further files leave the nodes of all earlier declarations as they are. -/
theorem identifiers_are_unique (files more : List FileFacts) :
    let g := DependencyGraph.ofFiles files
    (g.nodes.toList.map GraphNode.id).Nodup ∧
    (∀ (taken : Std.HashMap String Nat) (name : String) (node : GraphNode),
      taken.contains name = true → ∃ n,
        GraphBuilder.freeId taken name node = GraphBuilder.placedId name node n ∧
        taken.contains (GraphBuilder.placedId name node n) = false ∧
        ∀ m < n, taken.contains (GraphBuilder.placedId name node m) = true) ∧
    (∀ id n, g.node? id = some n ↔ n ∈ g.nodes.toList ∧ n.id = id) ∧
    g.views.map EdgeView.edge = g.edges.toList ∧
    (∀ v ∈ g.views, g.node? v.source.id = some v.source ∧ g.node? v.target.id = some v.target) ∧
    (∀ id, g.outgoing id = g.views.filter fun v => v.source.id == id) ∧
    (∀ id, g.incoming id = g.views.filter fun v => v.target.id == id) ∧
    ∀ (i : Nat) (d : Declaration), (declarations files)[i]? = some d →
      ∃ id, g.nodes[i]? = some (d.node id) ∧
        (DependencyGraph.ofFiles (files ++ more)).nodes[i]? = some (d.node id) := by
  have hg := DependencyGraph.ofFiles_keyed files
  refine ⟨hg.ids_nodup, fun _ _ node h => GraphBuilder.freeId_of_taken node h,
    hg.node?_eq_some_iff, hg.map_edge_views, fun _ h => hg.ends_found h, hg.outgoing_eq,
    hg.incoming_eq, ?_⟩
  intro i d hd
  have hi := (List.getElem?_eq_some_iff.mp hd).1
  obtain ⟨id, hid⟩ := GraphBuilder.declared_node hd
  have hnode := (ofFiles_node hi).trans hid
  exact ⟨id, hnode, (ofFiles_append_node files more hi).trans hnode⟩

end CodeAtlas
