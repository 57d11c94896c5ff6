import CodeAtlas.Proofs.Graph.Scopes
/-!
Placeholders: the nodes that stand for what a project uses without defining it. Each is made for the
edge of a dependency and is known by the kind and the target of it; an edge whose target nothing
defines ends at what has the identifier of its placeholder (`foldl_use_labelled`).
-/
namespace CodeAtlas

def placeholderId (kind : DependencyKind) (target : String) : String :=
  if kind = .imports then "ext:" ++ target else "unresolved:" ++ target

def placeholderKind (kind : DependencyKind) : NodeKind :=
  if kind = .imports then .external else .unresolved

def placeholderLabel (kind : DependencyKind) : Resolution :=
  if kind = .imports then .external else .unresolved

structure GraphNode.StandsFor (n : GraphNode) (kind : DependencyKind) (target : String) : Prop where
  id : n.id = placeholderId kind target
  kind : n.kind = placeholderKind kind

theorem placeholderLabel_not_resolved (kind : DependencyKind) :
    (placeholderLabel kind).isResolved = false := by
  cases kind <;> rfl

/-- An identifier of a placeholder tells the kind and the target that it stands for. -/
theorem placeholderId_inj {kind kind' : DependencyKind} {target target' : String}
    (h : placeholderId kind target = placeholderId kind' target') :
    placeholderKind kind = placeholderKind kind' ∧ target = target' := by
  have hapart : ∀ s t : String, "ext:" ++ s ≠ "unresolved:" ++ t := by
    intro s t heq
    have hchars := congrArg String.toList heq
    rw [String.toList_append, String.toList_append] at hchars
    exact absurd (List.cons.inj hchars).1 (by decide)
  unfold placeholderId at h
  unfold placeholderKind
  by_cases hk : kind = .imports <;> by_cases hk' : kind' = .imports
  · rw [if_pos hk, if_pos hk'] at h
    exact ⟨by rw [if_pos hk, if_pos hk'], (String.append_right_inj _).mp h⟩
  · rw [if_pos hk, if_neg hk'] at h
    exact absurd h (hapart _ _)
  · rw [if_neg hk, if_pos hk'] at h
    exact absurd h.symm (hapart _ _)
  · rw [if_neg hk, if_neg hk'] at h
    exact ⟨by rw [if_neg hk, if_neg hk'], (String.append_right_inj _).mp h⟩

theorem GraphNode.StandsFor.isExternal {n : GraphNode} {kind : DependencyKind} {target : String}
    (h : n.StandsFor kind target) : n.isExternal = true := by
  unfold GraphNode.isExternal
  rw [h.kind]
  cases kind <;> rfl

section Resolved

variable {ds : List Declaration} {o : Origin}

theorem Matches.resolved {parts : List String} {i : Nat} {r : Resolution}
    (h : Matches ds parts i r) : r.isResolved = true := by
  obtain ⟨-, -, ⟨rfl, -⟩ | ⟨rfl, -⟩⟩ := h <;> rfl

theorem LiesIn.resolved {run : List String} {i : Nat} {r : Resolution}
    (h : LiesIn ds run i r) : r.isResolved = true := by
  rw [h.1]
  rfl

/-- What a target is found to mean is declared, and the label says so. -/
theorem NodeTable.Knows.resolve?_declared {t : NodeTable} (h : t.Knows ds) {target : String}
    {kind : DependencyKind} {c : Candidate} (hc : t.resolve? target kind o = some c) :
    c.resolution.isResolved = true ∧ ∃ d, ds[c.position]? = some d := by
  unfold NodeTable.resolve? at hc
  split at hc
  · rw [Option.orElse_eq_or, Option.orElse_eq_or, Option.or_eq_some_iff,
      Option.or_eq_some_iff] at hc
    rcases hc with (hname | ⟨-, hpackage⟩) | ⟨-, hhead⟩
    · have hmatch := (h.lookup?_some hname).mem
      exact ⟨hmatch.resolved, hmatch.getElem?⟩
    · obtain ⟨run, -, -, hbest⟩ := h.package?_some hpackage
      exact ⟨hbest.mem.resolved, hbest.mem.getElem?⟩
    · obtain ⟨hlabel, front, r, -, -, hbest⟩ := h.head?_some hhead
      exact ⟨by rw [hlabel]; rfl, hbest.mem.getElem?⟩
  · obtain ⟨n, -, -, before, after, hcs, -⟩ := Candidate.pick?_spec hc
    have hmatch := h.mem_candidates.mp (hcs ▸ by simp : c ∈ t.candidates target)
    exact ⟨hmatch.resolved, hmatch.getElem?⟩

end Resolved

theorem Declaration.isExternal_node {files : List FileFacts} {d : Declaration}
    (h : d ∈ declarations files) (id : String) : (d.node id).isExternal = false := by
  obtain ⟨f, -, hd⟩ := List.mem_flatMap.mp h
  rcases List.mem_cons.mp hd with rfl | hd
  · rfl
  · obtain ⟨s, -, rfl⟩ := List.mem_map.mp hd
    rfl

namespace GraphBuilder

/-- A target that nothing defines ends at the node with the identifier of its placeholder. Either
the identifier is taken, or the placeholder comes behind all other nodes. -/
theorem placeholder_spec (b : GraphBuilder) (target : String) (kind : DependencyKind) :
    (∃ i, b.index[placeholderId kind target]? = some i ∧
      b.placeholder target kind = (b, ⟨i, placeholderLabel kind⟩)) ∨
    ∃ n, n.StandsFor kind target ∧
      (b.placeholder target kind).1.table.nodes = b.table.nodes.push n ∧
      (b.placeholder target kind).2 = ⟨b.table.nodes.size, placeholderLabel kind⟩ := by
  have hparts : (if (kind == .imports) = true then
        ("ext:" ++ target, NodeKind.external, Resolution.external)
      else ("unresolved:" ++ target, NodeKind.unresolved, Resolution.unresolved)) =
      (placeholderId kind target, placeholderKind kind, placeholderLabel kind) := by
    cases kind <;> rfl
  unfold placeholder
  rw [hparts]
  dsimp only
  cases hindex : b.index[placeholderId kind target]? with
  | some i => exact .inl ⟨i, rfl, rfl⟩
  | none => exact .inr ⟨⟨_, _, none, none, none, none⟩, ⟨rfl, rfl⟩, rfl, rfl⟩

/-- An edge ends at a declared node, or it carries the label of its placeholder and ends at the node
with the identifier of it. -/
def EndsAt (b : GraphBuilder) (e : GraphEdge) (n : GraphNode) : Prop :=
  b.table.nodes[e.target]? = some n ∧
    (e.resolution.isResolved = true ∧ n.isExternal = false ∨
      e.resolution = placeholderLabel e.kind ∧ n.id = placeholderId e.kind e.targetName)

/-- Every edge ends at a declared node or at what has the identifier of its placeholder, and every
node that stands for something is entered by an edge of that target. -/
structure Labelled (b : GraphBuilder) : Prop where
  ends : ∀ e ∈ b.edges.toList, ∃ n, b.EndsAt e n
  entered : ∀ (i : Nat) (n : GraphNode), b.table.nodes[i]? = some n → n.isExternal = true →
    ∃ e ∈ b.edges.toList, e.target = i ∧ n.StandsFor e.kind e.targetName

theorem EndsAt.extends {b b' : GraphBuilder} {e : GraphEdge} {n : GraphNode} (h : b.EndsAt e n)
    (hb : b.Extends b') : b'.EndsAt e n := by
  obtain ⟨hn, hlabel⟩ := h
  refine ⟨?_, hlabel⟩
  rw [hb.getElem?_eq (Array.getElem?_eq_some_iff.mp hn).1]
  exact hn

/-- The edge of a dependency ends as it should in the graph that it is added to. -/
theorem endsAt_edgeOf {files : List FileFacts} {b : GraphBuilder}
    (h : (declared files).Extends b) (hl : b.Located) (u : Slot × Dependency) :
    ∃ n, (b.use u).EndsAt (b.edgeOf u) n := by
  have hnodes : (b.use u).table.nodes = (b.found u).1.table.nodes := by
    rw [use_eq]
  unfold EndsAt edgeOf
  rw [hnodes]
  unfold found
  cases hr : b.table.resolve? u.2.target u.2.kind (u.1.origin u.2) with
  | some c =>
    obtain ⟨hresolved, d, hd⟩ := h.knows.resolve?_declared hr
    obtain ⟨id, hnode⟩ := h.knows.node _ d hd
    exact ⟨d.node id, hnode, .inl ⟨hresolved,
      Declaration.isExternal_node (List.mem_of_getElem? hd) id⟩⟩
  | none =>
    dsimp only
    rcases b.placeholder_spec u.2.target u.2.kind with ⟨i, hi, heq⟩ | ⟨n, hn, hpush, hlast⟩
    · obtain ⟨n, hn, hid⟩ := hl _ i hi
      rw [heq]
      exact ⟨n, hn, .inr ⟨rfl, hid⟩⟩
    · rw [hpush, hlast]
      exact ⟨n, Array.getElem?_push_size, .inr ⟨rfl, hn.id⟩⟩

/-- Adding an edge makes at most the placeholder that the edge enters. -/
theorem use_nodes (b : GraphBuilder) (u : Slot × Dependency) :
    (b.use u).table.nodes = b.table.nodes ∨
      ∃ n, n.StandsFor u.2.kind u.2.target ∧
        (b.use u).table.nodes = b.table.nodes.push n ∧
        (b.edgeOf u).target = b.table.nodes.size := by
  have hnodes : (b.use u).table.nodes = (b.found u).1.table.nodes := by
    rw [use_eq]
  rw [hnodes]
  unfold edgeOf found
  cases b.table.resolve? u.2.target u.2.kind (u.1.origin u.2) with
  | some c => exact .inl rfl
  | none =>
    dsimp only
    rcases b.placeholder_spec u.2.target u.2.kind with ⟨i, -, heq⟩ | ⟨n, hn, hpush, hlast⟩
    · rw [heq]
      exact .inl rfl
    · exact .inr ⟨n, hn, hpush, by rw [hlast]⟩

/-- Adding an edge keeps labels and nodes in step. -/
theorem Labelled.use {files : List FileFacts} {b : GraphBuilder} (h : b.Labelled)
    (hb : (declared files).Extends b) (hl : b.Located) (u : Slot × Dependency) :
    (b.use u).Labelled := by
  refine ⟨?_, ?_⟩
  · intro e he
    rw [use_edges, Array.toList_push, List.mem_append, List.mem_singleton] at he
    rcases he with he | rfl
    · obtain ⟨n, hn⟩ := h.ends e he
      exact ⟨n, hn.extends (b.use_extends u)⟩
    · exact endsAt_edgeOf hb hl u
  · intro i n hn hexternal
    have hold : ∀ m, b.table.nodes[i]? = some m → m = n →
        ∃ e ∈ (b.use u).edges.toList, e.target = i ∧ n.StandsFor e.kind e.targetName := by
      rintro m hm rfl
      obtain ⟨e, he, htarget⟩ := h.entered i m hm hexternal
      refine ⟨e, ?_, htarget⟩
      rw [use_edges, Array.toList_push]
      exact List.mem_append_left _ he
    rcases b.use_nodes u with hsame | ⟨m, hm, hpush, htarget⟩
    · rw [hsame] at hn
      exact hold n hn rfl
    · rw [hpush, Array.getElem?_push] at hn
      split at hn
      · rename_i hi
        obtain rfl := Option.some.inj hn
        refine ⟨b.edgeOf u, ?_, htarget.trans hi.symm, hm⟩
        rw [use_edges, Array.toList_push]
        exact List.mem_append_right _ List.mem_cons_self
      · exact hold n hn rfl

/-- What is declared is not external. -/
theorem isExternal_of_mem_declared {files : List FileFacts} {n : GraphNode}
    (h : n ∈ (declared files).table.nodes.toList) : n.isExternal = false := by
  obtain ⟨i, hn⟩ := List.getElem?_of_mem h
  rw [Array.getElem?_toList] at hn
  have hi : i < (declarations files).length := by
    rw [← declared_size]
    exact (Array.getElem?_eq_some_iff.mp hn).1
  obtain ⟨id, hid⟩ := declared_node (List.getElem?_eq_getElem hi)
  obtain rfl := Option.some.inj (hid.symm.trans hn)
  exact Declaration.isExternal_node (List.getElem_mem hi) id

theorem declared_labelled (files : List FileFacts) : (declared files).Labelled := by
  refine ⟨by simp [declared_edges], ?_⟩
  intro i n hn hexternal
  rw [← Array.getElem?_toList] at hn
  rw [isExternal_of_mem_declared (List.mem_of_getElem? hn)] at hexternal
  cases hexternal

/-- With all edges added labels and nodes are in step. -/
theorem foldl_use_labelled (files : List FileFacts) :
    ((uses files).foldl use (declared files)).Labelled :=
  (foldl_use (R := fun _ _ => True)
    (P := fun b => (declared files).Extends b ∧ b.Located ∧ b.Labelled) (uses files)
    (fun b u _ h => ⟨h.1.trans (b.use_extends u),
      by rw [use_eq]; exact (h.2.1.found u).1, h.2.2.use h.1 h.2.1 u⟩)
    (fun _ _ _ _ => trivial) ⟨.refl _, declared_located files, declared_labelled files⟩).1.2.2

end GraphBuilder

end CodeAtlas
