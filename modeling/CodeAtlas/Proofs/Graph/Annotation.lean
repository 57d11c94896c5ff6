import CodeAtlas.Proofs.Graph.Components
import CodeAtlas.Proofs.Graph.Ends
/-!
The cycles of the graph of a project are its strongly connected components with an edge, and each
node knows the one it lies on (`cycles_are_components`).
-/
namespace CodeAtlas
open Relation

def DependencyGraph.Step (g : DependencyGraph) (a b : Nat) : Prop :=
  ∃ e ∈ g.edges.toList, e.source = a ∧ e.target = b

namespace DependencyGraph

def ends (g : DependencyGraph) : List (Nat × Nat) :=
  g.edges.toList.map fun e => (e.source, e.target)

theorem linked_ends (g : DependencyGraph) : Cycles.Linked g.ends = g.Step := by
  funext a b
  simp [Cycles.Linked, ends, Step]

/-- The cycles of a graph were found from its edges, and the edges join its nodes. -/
structure Closed (g : DependencyGraph) : Prop where
  cycles_eq : g.cycles = Cycles.cycles g.nodes.size g.ends
  ends_lt : ∀ e ∈ g.ends, e.1 < g.nodes.size ∧ e.2 < g.nodes.size

namespace Closed

variable {g : DependencyGraph} (hg : g.Closed)
include hg

theorem mem_cycles (c : List Nat) : c ∈ g.cycles ↔ Cycles.IsClass g.Step c := by
  rw [hg.cycles_eq, ← linked_ends]
  exact Cycles.mem_cycles hg.ends_lt c

theorem cycles_pairwise :
    g.cycles.Pairwise fun c c' => ∃ a ∈ c.head?, ∃ b ∈ c'.head?, a < b := by
  rw [hg.cycles_eq]
  exact Cycles.cycles_pairwise hg.ends_lt

theorem cycles_nodup : g.cycles.Nodup := by
  refine hg.cycles_pairwise.imp ?_
  rintro c c' ⟨a, ha, b, hb, hlt⟩ rfl
  rw [Option.mem_unique ha hb] at hlt
  exact lt_irrefl b hlt

/-- A node lies on the cycle with an index exactly if it is a member of it. -/
theorem cycleOf?_eq_some_iff (i k : Nat) :
    g.cycleOf? i = some k ↔ ∃ c, g.cycles[k]? = some c ∧ i ∈ c := by
  unfold cycleOf?
  rw [List.findIdx?_eq_some_iff_getElem]
  constructor
  · rintro ⟨hk, hi, -⟩
    exact ⟨g.cycles[k], List.getElem?_eq_getElem hk, List.contains_iff_mem.mp hi⟩
  · rintro ⟨c, hc, hi⟩
    obtain ⟨hk, rfl⟩ := List.getElem?_eq_some_iff.mp hc
    refine ⟨hk, List.contains_iff_mem.mpr hi, ?_⟩
    intro j hjk hj
    -- An earlier cycle with the node would be the same class, and no class is listed twice.
    have hclass := (hg.mem_cycles _).mp (List.getElem_mem hk)
    have hclass' := (hg.mem_cycles _).mp (List.getElem_mem (hjk.trans hk))
    have heq := hclass'.eq_of_mem hclass (List.contains_iff_mem.mp hj) hi
    exact hjk.ne (hg.cycles_nodup.getElem_inj_iff.mp heq)

/-- The class of a node that lies on a closed walk is listed. -/
theorem exists_cycle {i : Nat} (h : TransGen g.Step i i) : ∃ c ∈ g.cycles, i ∈ c := by
  rw [← linked_ends] at h
  refine ⟨Cycles.classOf g.nodes.size g.ends i, ?_, ?_⟩
  · rw [hg.mem_cycles, ← linked_ends]
    exact Cycles.classOf_isClass hg.ends_lt h
  · exact (Cycles.mem_classOf hg.ends_lt (Cycles.lt_of_closed hg.ends_lt h) i).mpr (.refl i)

/-- A node has a cycle exactly if a walk leads back to it. -/
theorem cycleOf?_isSome_iff (i : Nat) : (g.cycleOf? i).isSome ↔ TransGen g.Step i i := by
  rw [Option.isSome_iff_exists]
  constructor
  · rintro ⟨k, hk⟩
    obtain ⟨c, hc, hi⟩ := (hg.cycleOf?_eq_some_iff i k).mp hk
    exact ((hg.mem_cycles c).mp (List.mem_of_getElem? hc)).closed hi
  · intro h
    obtain ⟨c, hc, hi⟩ := hg.exists_cycle h
    obtain ⟨k, hk⟩ := List.getElem?_of_mem hc
    exact ⟨k, (hg.cycleOf?_eq_some_iff i k).mpr ⟨c, hk, hi⟩⟩

/-- Two nodes have the same index exactly if each can be reached from the other. -/
theorem same_cycle_iff {i j : Nat} (hij : i ≠ j) :
    (∃ k, g.cycleOf? i = some k ∧ g.cycleOf? j = some k) ↔ Cycles.Joined g.Step i j := by
  constructor
  · rintro ⟨k, hi, hj⟩
    obtain ⟨c, hc, hi⟩ := (hg.cycleOf?_eq_some_iff i k).mp hi
    obtain ⟨c', hc', hj⟩ := (hg.cycleOf?_eq_some_iff j k).mp hj
    obtain rfl := Option.some.inj (hc.symm.trans hc')
    exact (((hg.mem_cycles c).mp (List.mem_of_getElem? hc)).mem_iff hi j).mp hj
  · intro h
    obtain ⟨c, hc, hi⟩ := hg.exists_cycle (h.closed_of_ne hij)
    have hj := (((hg.mem_cycles c).mp hc).mem_iff hi j).mpr h
    obtain ⟨k, hk⟩ := List.getElem?_of_mem hc
    exact ⟨k, (hg.cycleOf?_eq_some_iff i k).mpr ⟨c, hk, hi⟩,
      (hg.cycleOf?_eq_some_iff j k).mpr ⟨c, hk, hj⟩⟩

/-- Every member of a cycle is a node. -/
theorem lt_of_mem_cycle {c : List Nat} (hc : c ∈ g.cycles) {i : Nat} (hi : i ∈ c) :
    i < g.nodes.size := by
  have hclosed := ((hg.mem_cycles c).mp hc).closed hi
  rw [← linked_ends] at hclosed
  exact Cycles.lt_of_closed hg.ends_lt hclosed

/-- The listed identifiers are those of the members, and none is left out. -/
theorem cycleIds_eq :
    List.Forall₂ (List.Forall₂ fun id i => ∃ n, g.nodes[i]? = some n ∧ n.id = id)
      g.cycleIds g.cycles := by
  have hids : ∀ c : List Nat, (∀ i ∈ c, i < g.nodes.size) →
      List.Forall₂ (fun id i => ∃ n, g.nodes[i]? = some n ∧ n.id = id)
        (c.filterMap fun i => (g.nodes[i]?).map GraphNode.id) c := by
    intro c
    induction c with
    | nil => exact fun _ => .nil
    | cons i c ih =>
      intro hlt
      have hi := Array.getElem?_eq_getElem (hlt i List.mem_cons_self)
      rw [List.filterMap_cons_some (by rw [hi]; rfl)]
      exact .cons ⟨_, hi, rfl⟩ (ih fun j hj => hlt j (List.mem_cons_of_mem i hj))
  rw [cycleIds, List.forall₂_map_left_iff, List.forall₂_same]
  exact fun c hc => hids c fun i hi => hg.lt_of_mem_cycle hc hi

end Closed

theorem ofFiles_closed (files : List FileFacts) : (ofFiles files).Closed := by
  refine ⟨?_, ?_⟩
  · rw [ofFiles_eq]
    rfl
  · intro e he
    obtain ⟨edge, hedge, rfl⟩ := List.mem_map.mp he
    exact CodeAtlas.ends_lt files edge hedge

end DependencyGraph

/-- The cycles of the graph of a project. A node has a cycle exactly if it lies on a closed walk of
at least one edge; two nodes have the same one exactly if each can be reached from the other. The
list holds each class of such nodes once, in the order of insertion, by first nodes, and its indices
are those that the nodes have; the identifiers are listed along with it. -/
theorem cycles_are_components (files : List FileFacts) :
    let g := DependencyGraph.ofFiles files
    (∀ i, (g.cycleOf? i).isSome ↔ TransGen g.Step i i) ∧
    (∀ i j, i ≠ j → ((∃ k, g.cycleOf? i = some k ∧ g.cycleOf? j = some k) ↔
      ReflTransGen g.Step i j ∧ ReflTransGen g.Step j i)) ∧
    (∀ c, c ∈ g.cycles ↔ Cycles.IsClass g.Step c) ∧
    (g.cycles.Pairwise fun c c' => ∃ a ∈ c.head?, ∃ b ∈ c'.head?, a < b) ∧
    (∀ i k, g.cycleOf? i = some k ↔ ∃ c, g.cycles[k]? = some c ∧ i ∈ c) ∧
    List.Forall₂ (List.Forall₂ fun id i => ∃ n, g.nodes[i]? = some n ∧ n.id = id)
      g.cycleIds g.cycles := by
  have hg := DependencyGraph.ofFiles_closed files
  refine ⟨hg.cycleOf?_isSome_iff, ?_, hg.mem_cycles, hg.cycles_pairwise,
    hg.cycleOf?_eq_some_iff, hg.cycleIds_eq⟩
  intro i j hij
  exact hg.same_cycle_iff hij

end CodeAtlas
