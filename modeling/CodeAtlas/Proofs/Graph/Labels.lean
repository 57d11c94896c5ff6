import CodeAtlas.Proofs.Graph.Placeholders
/-!
Labels: the label of an edge and the kind of the node at its end say the same unless a declared node
has taken the identifier of a placeholder (`labels_fit_iff`). Patterns and reports read the two
sides apart from each other.
-/
namespace CodeAtlas

/-- The label of an edge and the kind of the node at its end say the same. -/
structure Resolution.Fits (r : Resolution) (k : NodeKind) : Prop where
  external : r = .external ↔ k = .external
  unresolved : r = .unresolved ↔ k = .unresolved
  resolved : r.isResolved = true ↔ k = .module ∨ k = .symbol

def DependencyGraph.Defines (g : DependencyGraph) (id : String) : Prop :=
  ∃ n ∈ g.nodes.toList, n.isExternal = false ∧ n.id = id

/-- The label of a placeholder fits the kind of a node exactly if the node stands for something of
that kind. -/
theorem fits_placeholderLabel_iff {kind : DependencyKind} {k : NodeKind} :
    (placeholderLabel kind).Fits k ↔ k = placeholderKind kind := by
  constructor
  · intro h
    obtain ⟨hexternal, hunresolved, -⟩ := h
    unfold placeholderLabel at hexternal hunresolved
    unfold placeholderKind
    by_cases hk : kind = .imports
    · rw [if_pos hk] at hexternal ⊢
      exact hexternal.mp rfl
    · rw [if_neg hk] at hunresolved ⊢
      exact hunresolved.mp rfl
  · rintro rfl
    cases kind <;> exact ⟨by decide, by decide, by decide⟩

theorem fits_of_resolved {r : Resolution} {n : GraphNode} (hr : r.isResolved = true)
    (hn : n.isExternal = false) : r.Fits n.kind := by
  unfold GraphNode.isExternal at hn
  generalize n.kind = k at hn
  cases r <;> cases k <;>
    first
    | exact absurd hr (by decide)
    | exact absurd hn (by decide)
    | exact ⟨by decide, by decide, by decide⟩

/-- The elements are counted once each by their keys, if no key is listed twice. -/
theorem total_countP_key {α β : Type} (key : α → String) (id : β → String) (xs : List α)
    {ns : List β} (h : (ns.map id).Nodup) :
    total (fun n => xs.countP fun x => key x == id n) ns =
      xs.countP fun x => (ns.map id).contains (key x) := by
  induction ns with
  | nil => simp [total]
  | cons n ns ih =>
    obtain ⟨hid, hrest⟩ := List.nodup_cons.mp h
    rw [total, ih hrest]
    clear ih h hrest
    simp only [List.map_cons, List.contains_cons]
    induction xs with
    | nil => rfl
    | cons x xs ihx =>
      simp only [List.countP_cons, ← ihx]
      by_cases hx : key x = id n
      · have hnot : (ns.map id).contains (key x) = false := by
          rw [hx]
          simpa using hid
        rw [hnot, Bool.or_false]
        simp only [Bool.false_eq_true, if_false]
        omega
      · rw [beq_false_of_ne hx, Bool.false_or]
        simp only [Bool.false_eq_true, if_false]
        omega

namespace DependencyGraph

def enteringExternal (g : DependencyGraph) : Nat :=
  total (fun n => (g.incoming n.id).length) g.externalNodes

namespace Keyed

variable {g : DependencyGraph} (hg : g.Keyed)
include hg

theorem eq_of_id {n m : GraphNode} (hn : n ∈ g.nodes.toList) (hm : m ∈ g.nodes.toList)
    (h : n.id = m.id) : n = m := by
  have hfound := (hg.node?_eq_some_iff m.id n).mpr ⟨hn, h⟩
  rw [(hg.node?_eq_some_iff m.id m).mpr ⟨hm, rfl⟩] at hfound
  exact (Option.some.inj hfound).symm

theorem target_mem {v : EdgeView} (hv : v ∈ g.views) : v.target ∈ g.nodes.toList :=
  ((hg.node?_eq_some_iff v.target.id v.target).mp (hg.ends_found hv).2).1

/-- The edges that enter external nodes, counted by edges. -/
theorem enteringExternal_eq :
    g.enteringExternal = g.views.countP fun v => v.target.isExternal := by
  have hlength : ∀ n : GraphNode,
      (g.incoming n.id).length = g.views.countP fun v => v.target.id == n.id := by
    intro n
    rw [hg.incoming_eq, List.countP_eq_length_filter]
  have hnodup : (g.externalNodes.map GraphNode.id).Nodup :=
    hg.ids_nodup.sublist (List.filter_sublist.map _)
  have hsum := total_countP_key (fun v : EdgeView => v.target.id) GraphNode.id g.views hnodup
  unfold enteringExternal
  simp only [hlength]
  refine hsum.trans ?_
  refine List.countP_congr fun v hv => ?_
  rw [List.contains_iff_mem, List.mem_map]
  constructor
  · rintro ⟨n, hn, hid⟩
    obtain ⟨hmem, hexternal⟩ := List.mem_filter.mp hn
    rwa [← hg.eq_of_id hmem (hg.target_mem hv) hid]
  · intro hexternal
    exact ⟨v.target, List.mem_filter.mpr ⟨hg.target_mem hv, hexternal⟩, rfl⟩

end Keyed

section Labels

variable {files : List FileFacts}

/-- An edge ends at a node of the run with a label for it, or at the placeholder of its target. -/
theorem view_ends {v : EdgeView} (hv : v ∈ (ofFiles files).views) :
    v.edge.resolution.isResolved = true ∧ v.target.isExternal = false ∨
      v.edge.resolution = placeholderLabel v.edge.kind ∧
        v.target.id = placeholderId v.edge.kind v.edge.targetName := by
  obtain ⟨e, he, hview⟩ := List.mem_filterMap.mp hv
  obtain ⟨-, htarget, rfl⟩ := view?_eq_some_iff.mp hview
  rw [ofFiles_eq] at he htarget
  obtain ⟨n, hn, hlabel⟩ := (GraphBuilder.foldl_use_labelled files).ends _ he
  obtain rfl := Option.some.inj (hn.symm.trans htarget)
  exact hlabel

/-- What stands for something was made for an edge that enters it. -/
theorem exists_entering {n : GraphNode} (hn : n ∈ (ofFiles files).externalNodes) :
    ∃ v ∈ (ofFiles files).incoming n.id, n.StandsFor v.edge.kind v.edge.targetName := by
  have hg := ofFiles_keyed files
  obtain ⟨hmem, hexternal⟩ := List.mem_filter.mp hn
  obtain ⟨i, hi⟩ := List.getElem?_of_mem hmem
  rw [Array.getElem?_toList] at hi
  obtain ⟨e, he, rfl, hstands⟩ : ∃ e ∈ (ofFiles files).edges.toList, e.target = i ∧
      n.StandsFor e.kind e.targetName := by
    rw [ofFiles_eq] at hi ⊢
    exact (GraphBuilder.foldl_use_labelled files).entered i n hi hexternal
  have hsource := (hg.ends_lt e he).1
  refine ⟨⟨(ofFiles files).nodes[e.source], n, e⟩, ?_, hstands⟩
  rw [hg.incoming_eq, List.mem_filter]
  refine ⟨List.mem_filterMap.mpr ⟨e, he, view?_eq_some_iff.mpr ⟨?_, hi, rfl⟩⟩, beq_self_eq_true _⟩
  exact Array.getElem?_eq_getElem hsource

/-- An edge that ends at what stands for something is an edge of the target that it stands for. -/
theorem standsFor_of_external {v : EdgeView} (hv : v ∈ (ofFiles files).views)
    (h : v.target.isExternal = true) :
    v.edge.resolution = placeholderLabel v.edge.kind ∧
      v.target.StandsFor v.edge.kind v.edge.targetName := by
  have hg := ofFiles_keyed files
  rcases view_ends hv with ⟨-, hdeclared⟩ | ⟨hlabel, hid⟩
  · rw [h] at hdeclared
    cases hdeclared
  · obtain ⟨w, -, hstands⟩ := exists_entering (List.mem_filter.mpr ⟨hg.target_mem hv, h⟩)
    have hkind := (placeholderId_inj (hid.symm.trans hstands.id)).1
    exact ⟨hlabel, hid, hstands.kind.trans hkind.symm⟩

theorem fits_of_external {v : EdgeView} (hv : v ∈ (ofFiles files).views)
    (h : v.target.isExternal = true) : v.edge.resolution.Fits v.target.kind := by
  obtain ⟨hlabel, hstands⟩ := standsFor_of_external hv h
  rw [hlabel]
  exact fits_placeholderLabel_iff.mpr hstands.kind

/-- A label fits its node unless an unresolved target stands at a node of the run. -/
theorem fits_iff_resolved_eq {v : EdgeView} (hv : v ∈ (ofFiles files).views) :
    v.edge.resolution.Fits v.target.kind ↔
      v.edge.resolution.isResolved = true ∨ v.target.isExternal = true := by
  constructor
  · intro h
    rcases view_ends hv with ⟨hresolved, -⟩ | ⟨hlabel, -⟩
    · exact .inl hresolved
    · rw [hlabel, fits_placeholderLabel_iff] at h
      refine .inr ?_
      unfold GraphNode.isExternal
      rw [h]
      cases v.edge.kind <;> rfl
  · rintro (hresolved | hexternal)
    · rcases view_ends hv with ⟨-, hdeclared⟩ | ⟨hlabel, -⟩
      · exact fits_of_resolved hresolved hdeclared
      · rw [hlabel, placeholderLabel_not_resolved] at hresolved
        cases hresolved
    · exact fits_of_external hv hexternal

/-- The label of an edge that nothing defines fails to fit exactly if a declared node has taken the
identifier of the placeholder. -/
theorem fits_iff_not_defines {v : EdgeView} (hv : v ∈ (ofFiles files).views) :
    v.edge.resolution.Fits v.target.kind ↔ v.edge.resolution.isResolved = true ∨
      ¬ (ofFiles files).Defines (placeholderId v.edge.kind v.edge.targetName) := by
  have hg := ofFiles_keyed files
  rw [fits_iff_resolved_eq hv]
  rcases view_ends hv with ⟨hresolved, -⟩ | ⟨hlabel, hid⟩
  · exact ⟨fun _ => .inl hresolved, fun _ => .inl hresolved⟩
  · refine or_congr_right ?_
    constructor
    · rintro hexternal ⟨n, hn, hdeclared, hnid⟩
      obtain rfl := hg.eq_of_id hn (hg.target_mem hv) (hnid.trans hid.symm)
      rw [hexternal] at hdeclared
      cases hdeclared
    · intro hfree
      by_contra hdeclared
      exact hfree ⟨v.target, hg.target_mem hv, eq_false_of_ne_true hdeclared, hid⟩

/-- The unresolved edges are those that enter external nodes and those that only should. -/
theorem unresolvedEdgeCount_eq :
    (ofFiles files).unresolvedEdgeCount = (ofFiles files).enteringExternal +
      ((ofFiles files).views.filter fun v => !v.edge.resolution.isResolved).countP
        fun v => ¬ v.target.isExternal := by
  have hg := ofFiles_keyed files
  have hcount : (ofFiles files).unresolvedEdgeCount =
      ((ofFiles files).views.filter fun v => !v.edge.resolution.isResolved).length := by
    unfold unresolvedEdgeCount
    rw [← hg.map_edge_views, List.countP_map, List.countP_eq_length_filter]
    rfl
  rw [hcount, List.length_eq_countP_add_countP fun v : EdgeView => v.target.isExternal,
    List.countP_filter, hg.enteringExternal_eq]
  congr 1
  refine List.countP_congr fun v hv => ?_
  constructor
  · intro h
    exact (Bool.and_eq_true_iff.mp h).1
  · intro h
    rw [h, (standsFor_of_external hv h).1, placeholderLabel_not_resolved]
    rfl

/-- The unresolved edges are as many as the edges into what stands for something exactly if all
labels fit. -/
theorem unresolvedEdgeCount_eq_iff :
    (ofFiles files).unresolvedEdgeCount = (ofFiles files).enteringExternal ↔
      ∀ v ∈ (ofFiles files).views, v.edge.resolution.Fits v.target.kind := by
  rw [unresolvedEdgeCount_eq, Nat.add_eq_left, List.countP_eq_zero]
  constructor
  · intro h v hv
    rw [fits_iff_resolved_eq hv]
    by_cases hresolved : v.edge.resolution.isResolved = true
    · exact .inl hresolved
    · have hmem : v ∈ (ofFiles files).views.filter fun v => !v.edge.resolution.isResolved :=
        List.mem_filter.mpr ⟨hv, by simpa using hresolved⟩
      exact .inr (by simpa using h v hmem)
  · intro h v hmem
    obtain ⟨hv, hunresolved⟩ := List.mem_filter.mp hmem
    have hfits := (fits_iff_resolved_eq hv).mp (h v hv)
    simpa using hfits.resolve_left (by simpa using hunresolved)

/-- A node that is declared has the name of its declaration, as far as the first `@`. -/
theorem exists_declaration {n : GraphNode} (hn : n ∈ (ofFiles files).nodes.toList)
    (hdeclared : n.isExternal = false) :
    ∃ d ∈ declarations files, beforeMark n.id = beforeMark d.name := by
  have hext := GraphBuilder.foldl_use_extends (uses files) (.declared files)
  obtain ⟨extra, hsplit, hextra⟩ := hext.nodes
  rw [ofFiles_eq] at hn
  change n ∈ ((uses files).foldl GraphBuilder.use (.declared files)).table.nodes.toList at hn
  rw [hsplit, List.mem_append] at hn
  rcases hn with hn | hn
  · obtain ⟨i, hi⟩ := List.getElem?_of_mem hn
    rw [Array.getElem?_toList] at hi
    have hlt : i < (declarations files).length := by
      rw [← GraphBuilder.declared_size]
      exact (Array.getElem?_eq_some_iff.mp hi).1
    obtain ⟨id, hnode, hid⟩ :=
      (GraphBuilder.Extends.refl _).marks i _ (List.getElem?_eq_getElem hlt)
    obtain rfl := Option.some.inj (hi.symm.trans hnode)
    exact ⟨_, List.getElem_mem hlt, hid⟩
  · rw [hextra n hn] at hdeclared
    cases hdeclared

end Labels

end DependencyGraph

/-- Only a name with the same prefix can take the identifier of a placeholder. -/
theorem begins_of_beforeMark {mark target name : String} (hmark : '@' ∉ mark.toList)
    (h : beforeMark (mark ++ target) = beforeMark name) : Text.begins mark name = true := by
  have htake := congrArg String.toList h
  unfold beforeMark at htake
  rw [String.toList_ofList, String.toList_ofList, String.toList_append,
    List.takeWhile_append_of_pos (by
      intro c hc
      rw [bne_iff_ne]
      rintro rfl
      exact hmark hc)] at htake
  have hprefix : mark.toList <+: name.toList :=
    (htake ▸ List.prefix_append _ _).trans (List.takeWhile_prefix _)
  exact List.isPrefixOf_iff_prefix.mpr hprefix

/-- The label of an edge and the kind of the node that it ends at say the same of every edge whose
target nothing defines exactly if no module and no symbol has taken the identifier of the
placeholder, and of all other edges always; they never differ at a placeholder. All labels fit
exactly if the unresolved edges are as many as those that enter a placeholder, and they do if no
declared name begins like the identifier of one. A placeholder is entered, and by the edges of one
target only. -/
theorem labels_fit_iff (files : List FileFacts) :
    let g := DependencyGraph.ofFiles files
    (∀ v ∈ g.views, v.edge.resolution.Fits v.target.kind ↔ v.edge.resolution.isResolved = true ∨
      ¬ g.Defines (placeholderId v.edge.kind v.edge.targetName)) ∧
    (∀ v ∈ g.views, v.target.isExternal = true → v.edge.resolution.Fits v.target.kind) ∧
    (g.unresolvedEdgeCount = g.enteringExternal ↔
      ∀ v ∈ g.views, v.edge.resolution.Fits v.target.kind) ∧
    ((∀ d ∈ declarations files,
        Text.begins "ext:" d.name = false ∧ Text.begins "unresolved:" d.name = false) →
      ∀ v ∈ g.views, v.edge.resolution.Fits v.target.kind) ∧
    ∀ n ∈ g.externalNodes, ∃! target, g.incoming n.id ≠ [] ∧ ∀ v ∈ g.incoming n.id,
      n.StandsFor v.edge.kind v.edge.targetName ∧ v.edge.targetName = target := by
  have hg := DependencyGraph.ofFiles_keyed files
  refine ⟨fun v hv => DependencyGraph.fits_iff_not_defines hv,
    fun v hv => DependencyGraph.fits_of_external hv,
    DependencyGraph.unresolvedEdgeCount_eq_iff, ?_, ?_⟩
  · intro hplain v hv
    rw [DependencyGraph.fits_iff_not_defines hv]
    refine .inr ?_
    rintro ⟨n, hn, hdeclared, hid⟩
    obtain ⟨d, hd, hname⟩ := DependencyGraph.exists_declaration hn hdeclared
    obtain ⟨hext, hunresolved⟩ := hplain d hd
    rw [hid, placeholderId] at hname
    split at hname
    · rw [begins_of_beforeMark (by decide) hname] at hext
      cases hext
    · rw [begins_of_beforeMark (by decide) hname] at hunresolved
      cases hunresolved
  · intro n hn
    obtain ⟨w, hw, hstands⟩ := DependencyGraph.exists_entering hn
    have hmem := List.mem_filter.mp hn
    have hentering : ∀ v ∈ (DependencyGraph.ofFiles files).incoming n.id,
        n.StandsFor v.edge.kind v.edge.targetName := by
      intro v hv
      rw [hg.incoming_eq, List.mem_filter, beq_iff_eq] at hv
      obtain rfl := hg.eq_of_id (hg.target_mem hv.1) hmem.1 hv.2
      exact (DependencyGraph.standsFor_of_external hv.1 hmem.2).2
    refine ⟨w.edge.targetName, ⟨List.ne_nil_of_mem hw, ?_⟩, ?_⟩
    · intro v hv
      refine ⟨hentering v hv, ?_⟩
      exact (placeholderId_inj ((hentering v hv).id.symm.trans hstands.id)).2
    · rintro target ⟨-, hall⟩
      exact ((hall w hw).2).symm

/-- A module whose file is called `ext:os.py`, and a module that imports `os`. -/
def shadowingFiles : List FileFacts :=
  let file (path moduleId : String) (dependencies : List Dependency) : FileFacts :=
    ⟨⟨path⟩, .python, moduleId, [], dependencies, .none, false, false, none⟩
  [file "ext:os.py" "ext:os" [],
    file "a.py" "a" [⟨"a", "os", .imports, ⟨⟨"a.py"⟩, .ofLines 1 1⟩⟩]]

theorem shadowingFiles_external (i : Nat) (o : Origin) :
    ImportMeans (declarations shadowingFiles) o (Text.dotParts "os") i .external := by
  have hone : ∀ d ∈ declarations shadowingFiles,
      (Text.dotParts d.name).length = 1 ∧ Text.dotParts d.name ≠ ["os"] := by decide +kernel
  have hos : Text.dotParts "os" = ["os"] := by decide +kernel
  rw [hos]
  refine .external ?_ ?_ ?_
  · rintro j r ⟨d, hd, ⟨-, hparts⟩ | ⟨-, front, hfront, hparts⟩⟩
    · exact (hone d (List.mem_of_getElem? hd)).2 hparts
    · have hlength := (hone d (List.mem_of_getElem? hd)).1
      have hpos := List.length_pos_of_ne_nil hfront
      rw [hparts, List.length_append, List.length_singleton] at hlength
      omega
  · rintro run ⟨-, hrun⟩ j r ⟨-, d, hd, -, back, hback, hparts⟩
    have hlength := (hone d (List.mem_of_getElem? hd)).1
    have hpos := List.length_pos_of_ne_nil hback
    have hrunpos : 1 ≤ run.length := by
      rcases hrun with rfl | hlong
      · exact le_rfl
      · omega
    rw [hparts, List.length_append] at hlength
    omega
  · rintro front ⟨hfront, back, hback, htarget⟩
    have hlength := congrArg List.length htarget
    have hpos := List.length_pos_of_ne_nil hfront
    have hpos' := List.length_pos_of_ne_nil hback
    rw [List.length_append, List.length_singleton] at hlength
    omega

/-- A module that has the identifier of a placeholder is entered by an edge that is labelled as
external. -/
theorem labels_do_not_fit : ¬ ∀ files : List FileFacts,
    ∀ v ∈ (DependencyGraph.ofFiles files).views, v.edge.resolution.Fits v.target.kind := by
  intro h
  have hg := DependencyGraph.ofFiles_keyed shadowingFiles
  have hedges := forall₂_edges (R := fun e u => e.kind = u.2.kind ∧ e.targetName = u.2.target ∧
      Means (declarations shadowingFiles) (u.1.origin u.2) u.2 e.target e.resolution)
    shadowingFiles fun b hb u _ => ⟨rfl, rfl, GraphBuilder.edgeOf_means hb u⟩
  have himport : (uses shadowingFiles)[0]? = some (⟨1, shadowingFiles[1]⟩,
      ⟨"a", "os", .imports, ⟨⟨"a.py"⟩, .ofLines 1 1⟩⟩) := rfl
  obtain ⟨e, he, hkind, htarget, hmeans⟩ := forall₂_getElem? hedges himport
  have hexternal : e.resolution = .external :=
    (ImportMeans.unique hmeans (shadowingFiles_external 0 _)).1
  obtain ⟨v, hv, rfl⟩ : ∃ v ∈ (DependencyGraph.ofFiles shadowingFiles).views, v.edge = e := by
    rw [← List.mem_map, hg.map_edge_views]
    exact List.mem_of_getElem? he
  have hfits := (DependencyGraph.fits_iff_not_defines hv).mp (h shadowingFiles v hv)
  rw [hexternal, hkind, htarget] at hfits
  have hfree : (GraphBuilder.empty.index.contains "ext:os") = false := Std.HashMap.contains_empty
  have hmodule : (DependencyGraph.ofFiles shadowingFiles).nodes[0]? =
      some ((Declaration.ofModule shadowingFiles[0]).node "ext:os") := by
    rw [ofFiles_node (by decide), ← GraphBuilder.freeId_of_free
      ((Declaration.ofModule shadowingFiles[0]).node "") hfree]
    rfl
  have hmem := Array.mem_toList_iff.mpr (Array.mem_of_getElem? hmodule)
  exact hfits.resolve_left (by decide) ⟨_, hmem, rfl, by decide⟩

end CodeAtlas
