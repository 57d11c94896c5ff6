import CodeAtlas.Proofs.Graph.Edges
import CodeAtlas.Proofs.Graph.Meaning
import CodeAtlas.Proofs.Graph.Names
import CodeAtlas.Proofs.Graph.Ranking
/-!
Resolution through the index finds what a target means. A table that knows some declarations looks
up exactly the candidates of each stage, so every edge ends at a meaning of its dependency
(`edges_mean`).
-/
namespace CodeAtlas

/-- Longer names first, the first success is that of the longest name with one. -/
theorem findSome?_longest {β : Type} {f : String → Option β} {names : List String} {b : β}
    (hp : names.Pairwise fun s m => (Text.dotParts m).length < (Text.dotParts s).length)
    (h : names.findSome? f = some b) :
    ∃ s ∈ names, f s = some b ∧
      ∀ m ∈ names, (Text.dotParts s).length < (Text.dotParts m).length → f m = none := by
  obtain ⟨before, s, after, rfl, hs, hbefore⟩ := List.findSome?_eq_some_iff.mp h
  refine ⟨s, by simp, hs, ?_⟩
  intro m hm hlt
  rcases List.mem_append.mp hm with hm | hm
  · exact hbefore m hm
  · have hshort := (List.pairwise_cons.mp (List.pairwise_append.mp hp).2.1).1
    rcases List.mem_cons.mp hm with rfl | hm
    · exact absurd hlt (lt_irrefl _)
    · exact absurd hlt (hshort m hm).asymm

theorem UsableRun.ne_nil {target : String} {run : List String}
    (h : UsableRun (Text.dotParts target) run) : run ≠ [] := by
  rcases h.2 with rfl | h2
  · exact Text.dotParts_ne_nil target
  · exact List.ne_nil_of_length_pos (by omega)

/-- A usable run is the parts of a name. -/
theorem UsableRun.dotParts_dotJoin {target : String} {run : List String}
    (h : UsableRun (Text.dotParts target) run) : Text.dotParts (Text.dotJoin run) = run :=
  Text.dotParts_dotJoin_of_subset h.ne_nil h.1.subset

theorem ProperHead.dotParts_dotJoin {target : String} {front : List String}
    (h : ProperHead (Text.dotParts target) front) :
    Text.dotParts (Text.dotJoin front) = front := by
  obtain ⟨hne, back, -, hparts⟩ := h
  exact Text.dotParts_dotJoin_of_subset (s := target) hne (hparts ▸ List.subset_append_left _ _)

theorem mem_properHeads_iff {target s : String} :
    s ∈ properHeads target ↔ ProperHead (Text.dotParts target) (Text.dotParts s) := by
  rw [mem_properHeads, ProperHead, and_iff_right (Text.dotParts_ne_nil s)]

namespace NodeTable

/-- The names that are tried as directories are those of the usable runs. -/
theorem mem_packageNames {target s : String} :
    s ∈ packageNames target ↔ UsableRun (Text.dotParts target) (Text.dotParts s) := by
  simp only [packageNames, List.mem_cons, List.mem_map, List.mem_range]
  constructor
  · rintro (rfl | ⟨n, hn, rfl⟩)
    · exact ⟨List.suffix_refl _, .inl rfl⟩
    · rw [dotParts_properEnd (by omega)]
      refine ⟨List.drop_suffix _ _, .inr ?_⟩
      rw [List.length_drop]
      omega
  · rintro ⟨⟨front, hparts⟩, hlong⟩
    rcases hlong with heq | hlong
    · exact .inl (Text.dotParts_injective heq)
    · cases front with
      | nil => exact .inl (Text.dotParts_injective (by simpa using hparts))
      | cons part front =>
        refine .inr ⟨front.length, ?_, ?_⟩
        · rw [← hparts, List.length_append, List.length_cons]
          omega
        · rw [← hparts, List.drop_left' (by simp), Text.dotJoin_dotParts]

/-- The names that are tried as directories are the target and the longest of its ends. -/
theorem packageNames_eq (target : String) : packageNames target =
    target :: (properEnds target).take ((Text.dotParts target).length - 2) := by
  rw [packageNames, properEnds, ← List.map_take, List.take_range, Nat.min_eq_left (by omega)]

theorem packageNames_pairwise (target : String) : (packageNames target).Pairwise
    fun s m => (Text.dotParts m).length < (Text.dotParts s).length := by
  rw [packageNames_eq, List.pairwise_cons]
  refine ⟨?_, (properEnds_pairwise target).sublist (List.take_sublist _ _)⟩
  intro m hm
  obtain ⟨front, hne, hparts⟩ := mem_properEnds.mp (List.mem_of_mem_take hm)
  have hpos := List.length_pos_of_ne_nil hne
  rw [hparts, List.length_append]
  omega

/-- A table that knows some declarations: their nodes come first, and the index finds them. -/
structure Knows (t : NodeTable) (ds : List Declaration) : Prop where
  node : ∀ (i : Nat) (d : Declaration), ds[i]? = some d → ∃ id, t.nodes[i]? = some (d.node id)
  named : ∀ s, t.names.named s = positions (fun d => d.name = s) ds
  ending : ∀ s, t.names.ending s = positions (fun d => s ∈ properEnds d.name) ds
  within : ∀ s, t.names.within s =
    positions (fun d => d.kind = .module ∧ s ∈ properHeads d.name) ds

variable {t : NodeTable} {ds : List Declaration} {o : Origin}

/-- The candidates of a name are the declarations that match it. -/
theorem Knows.mem_candidates (h : t.Knows ds) {s : String} {c : Candidate} :
    c ∈ t.candidates s ↔ Matches ds (Text.dotParts s) c.position c.resolution := by
  obtain ⟨i, r⟩ := c
  simp only [candidates, h.named, h.ending, List.mem_append, List.mem_map, mem_positions,
    mem_properEnds, Candidate.mk.injEq, Matches]
  constructor
  · rintro (⟨j, ⟨d, hd, rfl⟩, rfl, rfl⟩ | ⟨j, ⟨d, hd, hend⟩, rfl, rfl⟩)
    · exact ⟨d, hd, .inl ⟨rfl, rfl⟩⟩
    · exact ⟨d, hd, .inr ⟨rfl, hend⟩⟩
  · rintro ⟨d, hd, ⟨rfl, hparts⟩ | ⟨rfl, hend⟩⟩
    · exact .inl ⟨i, ⟨d, hd, Text.dotParts_injective hparts⟩, rfl, rfl⟩
    · exact .inr ⟨i, ⟨d, hd, hend⟩, rfl, rfl⟩

/-- Candidates that were found in the same way stand in the order of insertion. -/
theorem Knows.candidates_pairwise (h : t.Knows ds) (s : String) : (t.candidates s).Pairwise
    fun a b => a.resolution = b.resolution → a.position < b.position := by
  rw [candidates, h.named, h.ending, List.pairwise_append, List.pairwise_map, List.pairwise_map]
  refine ⟨(positions_pairwise ds).imp ?_, (positions_pairwise ds).imp ?_, ?_⟩
  · exact fun hlt _ => hlt
  · exact fun hlt _ => hlt
  -- Exact candidates and those with a longer name are never found in the same way.
  intro a ha b hb heq
  obtain ⟨i, -, rfl⟩ := List.mem_map.mp ha
  obtain ⟨j, -, rfl⟩ := List.mem_map.mp hb
  cases heq

/-- The candidates within a package are the declarations that lie in it. -/
theorem Knows.mem_within (h : t.Knows ds) {s : String} {c : Candidate} :
    c ∈ (t.names.within s).map (⟨·, .package⟩) ↔
      LiesIn ds (Text.dotParts s) c.position c.resolution := by
  obtain ⟨i, r⟩ := c
  simp only [h.within, List.mem_map, mem_positions, mem_properHeads, Candidate.mk.injEq, LiesIn]
  constructor
  · rintro ⟨j, hj, rfl, rfl⟩
    exact ⟨rfl, hj⟩
  · rintro ⟨rfl, hi⟩
    exact ⟨i, hi, rfl, rfl⟩

/-- The ranks of import candidates compare as their demerits do. -/
theorem rank_le_rank_iff (d d' : Declaration) (id id' : String) (r r' : Resolution) :
    ((d.node id).rank true (r == .exact) o).key ≤ ((d'.node id').rank true (r' == .exact) o).key ↔
      d.demerits o r ≤ d'.demerits o r' := by
  rw [Declaration.demerits, Declaration.demerits, ← Rank.faults_le_faults_iff]
  simp only [Rank.key, GraphNode.rank, Declaration.node, Option.any_some, if_true, bne]
  rw [Prod.Lex.toLex_le_toLex]
  simp

/-- Where nothing can be picked there is no candidate. -/
theorem Knows.pick?_none (h : t.Knows ds) {cs : List Candidate}
    {candidates : Nat → Resolution → Prop}
    (hmem : ∀ c, c ∈ cs ↔ candidates c.position c.resolution)
    (hget : ∀ i r, candidates i r → ∃ d, ds[i]? = some d)
    (hnone : Candidate.pick? t.nodes true o cs = none) (i : Nat) (r : Resolution) :
    ¬ candidates i r := by
  intro hc
  obtain ⟨d, hd⟩ := hget i r hc
  obtain ⟨id, hn⟩ := h.node i d hd
  exact Candidate.pick?_eq_none_iff.mp hnone ⟨i, r⟩ ((hmem _).mpr hc) _ hn (.inl rfl)

/-- Picking among the candidates of a stage finds the first of the best. -/
theorem Knows.pick?_some (h : t.Knows ds) {cs : List Candidate} {c : Candidate}
    {candidates : Nat → Resolution → Prop}
    (hmem : ∀ c, c ∈ cs ↔ candidates c.position c.resolution)
    (hexact : ∀ i r j r', candidates i r → candidates j r' → (r != .exact) = (r' != .exact) →
      r = r')
    (hord : cs.Pairwise fun a b => a.resolution = b.resolution → a.position < b.position)
    (hsome : Candidate.pick? t.nodes true o cs = some c) :
    FirstBest ds o candidates c.position c.resolution := by
  obtain ⟨hmemc, n, hn, -, hfirst⟩ := Candidate.pick?_first hord hsome
  have hc := (hmem c).mp hmemc
  refine ⟨hc, ?_⟩
  intro d hd j r' d' hj hd'
  obtain ⟨id, hnode⟩ := h.node _ d hd
  obtain ⟨id', hnode'⟩ := h.node _ d' hd'
  obtain rfl : n = d.node id := Option.some.inj (hn.symm.trans hnode)
  obtain ⟨hle, hties⟩ := hfirst ⟨j, r'⟩ ((hmem _).mpr hj) _ hnode' (.inl rfl)
  refine ⟨(rank_le_rank_iff d d' id id' _ _).mp hle, ?_⟩
  -- Equal demerits mean that both were found in the same way, so their order is that of insertion.
  intro heq
  exact hties ((rank_le_rank_iff d' d id' id _ _).mpr heq.ge)
    (hexact _ _ _ _ hc hj (congrArg (fun x => (ofLex x).1) heq))

theorem Matches.exact_unique {parts : List String} {i j : Nat} {r r' : Resolution}
    (h : Matches ds parts i r) (h' : Matches ds parts j r')
    (heq : (r != .exact) = (r' != .exact)) : r = r' := by
  obtain ⟨-, -, ⟨rfl, -⟩ | ⟨rfl, -⟩⟩ := h <;> obtain ⟨-, -, ⟨rfl, -⟩ | ⟨rfl, -⟩⟩ := h'
  · rfl
  · cases heq
  · cases heq
  · rfl

theorem Knows.lookup?_none (h : t.Knows ds) {s : String} (hnone : t.lookup? s true o = none)
    (i : Nat) (r : Resolution) : ¬ Matches ds (Text.dotParts s) i r :=
  h.pick?_none (fun _ => h.mem_candidates) (fun _ _ hm => hm.getElem?) hnone i r

theorem Knows.lookup?_some (h : t.Knows ds) {s : String} {c : Candidate}
    (hsome : t.lookup? s true o = some c) :
    FirstBest ds o (Matches ds (Text.dotParts s)) c.position c.resolution :=
  h.pick?_some (fun _ => h.mem_candidates) (fun _ _ _ _ hm hm' => Matches.exact_unique hm hm')
    (h.candidates_pairwise s) hsome

theorem Knows.within_none (h : t.Knows ds) {s : String}
    (hnone : Candidate.pick? t.nodes true o ((t.names.within s).map (⟨·, .package⟩)) = none)
    (i : Nat) (r : Resolution) : ¬ LiesIn ds (Text.dotParts s) i r :=
  h.pick?_none (fun _ => h.mem_within) (fun _ _ hl => hl.getElem?) hnone i r

theorem Knows.within_some (h : t.Knows ds) {s : String} {c : Candidate}
    (hsome : Candidate.pick? t.nodes true o ((t.names.within s).map (⟨·, .package⟩)) = some c) :
    FirstBest ds o (LiesIn ds (Text.dotParts s)) c.position c.resolution := by
  apply h.pick?_some (fun _ => h.mem_within) (fun _ _ _ _ hl hl' _ => hl.1.trans hl'.1.symm) _ hsome
  rw [h.within, List.pairwise_map]
  refine (positions_pairwise ds).imp ?_
  exact fun hlt _ => hlt

/-- The stage of directories fails exactly if no module lies in one that the target ends with. -/
theorem Knows.package?_none (h : t.Knows ds) {target : String}
    (hnone : t.package? target o = none) {run : List String}
    (hrun : UsableRun (Text.dotParts target) run) (i : Nat) (r : Resolution) :
    ¬ LiesIn ds run i r := by
  have hmem : Text.dotJoin run ∈ packageNames target :=
    mem_packageNames.mpr (hrun.dotParts_dotJoin.symm ▸ hrun)
  have hw := h.within_none (List.findSome?_eq_none_iff.mp hnone _ hmem) i r
  rwa [hrun.dotParts_dotJoin] at hw

/-- The package that is picked is the longest run of steps in which something lies. -/
theorem Knows.package?_some (h : t.Knows ds) {target : String} {c : Candidate}
    (hsome : t.package? target o = some c) :
    ∃ run, UsableRun (Text.dotParts target) run ∧
      (∀ run', UsableRun (Text.dotParts target) run' → run.length < run'.length →
        ∀ i r, ¬ LiesIn ds run' i r) ∧
      FirstBest ds o (LiesIn ds run) c.position c.resolution := by
  obtain ⟨s, hs, hc, hlonger⟩ := findSome?_longest (packageNames_pairwise target) hsome
  refine ⟨Text.dotParts s, mem_packageNames.mp hs, ?_, h.within_some hc⟩
  intro run' hrun' hlt i r
  have hmem : Text.dotJoin run' ∈ packageNames target :=
    mem_packageNames.mpr (hrun'.dotParts_dotJoin.symm ▸ hrun')
  have hw := h.within_none (hlonger _ hmem (hrun'.dotParts_dotJoin.symm ▸ hlt)) i r
  rwa [hrun'.dotParts_dotJoin] at hw

/-- The stage of heads fails exactly if no declaration has a head of the target as its name. -/
theorem Knows.head?_none (h : t.Knows ds) {target : String} (hnone : t.head? target o = none)
    {front : List String} (hfront : ProperHead (Text.dotParts target) front) (i : Nat)
    (r : Resolution) : ¬ Matches ds front i r := by
  have hmem : Text.dotJoin front ∈ (properHeads target).reverse :=
    List.mem_reverse.mpr (mem_properHeads_iff.mpr (hfront.dotParts_dotJoin.symm ▸ hfront))
  have hl := h.lookup?_none
    (List.findSome?_eq_none_iff.mp (Option.map_eq_none_iff.mp hnone) _ hmem) i r
  rwa [hfront.dotParts_dotJoin] at hl

/-- The head that is picked is the longest one that something matches. -/
theorem Knows.head?_some (h : t.Knows ds) {target : String} {c : Candidate}
    (hsome : t.head? target o = some c) :
    c.resolution = .head ∧ ∃ front r, ProperHead (Text.dotParts target) front ∧
      (∀ front', ProperHead (Text.dotParts target) front' → front.length < front'.length →
        ∀ i r', ¬ Matches ds front' i r') ∧
      FirstBest ds o (Matches ds front) c.position r := by
  obtain ⟨c', hc', rfl⟩ := Option.map_eq_some_iff.mp hsome
  obtain ⟨s, hs, hfound, hlonger⟩ :=
    findSome?_longest (List.pairwise_reverse.mpr (properHeads_pairwise target)) hc'
  have hproper := mem_properHeads_iff.mp (List.mem_reverse.mp hs)
  refine ⟨rfl, Text.dotParts s, c'.resolution, hproper, ?_, h.lookup?_some hfound⟩
  intro front' hfront' hlt i r
  have hmem : Text.dotJoin front' ∈ (properHeads target).reverse :=
    List.mem_reverse.mpr (mem_properHeads_iff.mpr (hfront'.dotParts_dotJoin.symm ▸ hfront'))
  have hl := h.lookup?_none (hlonger _ hmem (hfront'.dotParts_dotJoin.symm ▸ hlt)) i r
  rwa [hfront'.dotParts_dotJoin] at hl

/-- The table finds what an import means, and nothing only if the import means nothing. -/
theorem Knows.import_means (h : t.Knows ds) (target : String) :
    match t.resolve? target .imports o with
    | some c => ImportMeans ds o (Text.dotParts target) c.position c.resolution
    | none => ∀ i, ImportMeans ds o (Text.dotParts target) i .external := by
  have hresolve : t.resolve? target .imports o = ((t.lookup? target true o).orElse
      fun _ => t.package? target o).orElse fun _ => t.head? target o := rfl
  rw [hresolve]
  cases hname : t.lookup? target true o with
  | some c => exact .name (h.lookup?_some hname)
  | none =>
    have hunnamed := h.lookup?_none hname
    cases hpackage : t.package? target o with
    | some c =>
      obtain ⟨run, hrun, hlonger, hbest⟩ := h.package?_some hpackage
      exact .package hunnamed hrun hlonger hbest
    | none =>
      have houtside := fun run (hrun : UsableRun (Text.dotParts target) run) =>
        h.package?_none hpackage hrun
      cases hhead : t.head? target o with
      | some c =>
        obtain ⟨hr, front, r, hfront, hlonger, hbest⟩ := h.head?_some hhead
        rw [Option.orElse_none, Option.orElse_none]
        dsimp only
        rw [hr]
        exact .head hunnamed houtside hfront hlonger hbest
      | none =>
        intro i
        exact .external hunnamed houtside fun front hfront => h.head?_none hhead hfront

/-- The table finds what any other dependency means, and nothing only if it means nothing. -/
theorem Knows.use_means (h : t.Knows ds) (target : String) {kind : DependencyKind}
    (hk : kind ≠ .imports) :
    match t.resolve? target kind o with
    | some c => UseMeans ds (Text.dotParts target) c.position c.resolution
    | none => ∀ i, UseMeans ds (Text.dotParts target) i .unresolved := by
  have hresolve : t.resolve? target kind o = t.lookup? target false o := by
    rw [resolve?, if_neg (by simpa using hk)]
  rw [hresolve]
  cases hname : t.lookup? target false o with
  | some c =>
    obtain ⟨n, hn, husable, before, after, hcs, -, -⟩ := Candidate.pick?_spec hname
    have hc : c ∈ t.candidates target := hcs ▸ by simp
    have hfits := h.mem_candidates.mp hc
    obtain ⟨d, hd⟩ := hfits.getElem?
    obtain ⟨id, hnode⟩ := h.node _ d hd
    obtain rfl : n = d.node id := Option.some.inj (hn.symm.trans hnode)
    exact .name hfits hd (husable.resolve_left (by simp))
  | none =>
    intro i
    refine .unresolved fun j r d hfits hd => ?_
    obtain ⟨id, hnode⟩ := h.node _ d hd
    by_contra hmodule
    exact Candidate.pick?_eq_none_iff.mp hname ⟨j, r⟩ (h.mem_candidates.mpr hfits) _ hnode
      (.inr hmodule)

end NodeTable

namespace GraphBuilder

/-- While edges are added the table knows all declarations. -/
theorem Extends.knows {files : List FileFacts} {b : GraphBuilder}
    (h : (declared files).Extends b) : b.table.Knows (declarations files) := by
  have hindex := declared_indexes files
  refine ⟨?_, ?_, ?_, ?_⟩
  · intro i d hd
    have hi := (List.getElem?_eq_some_iff.mp hd).1
    rw [h.getElem?_eq (by rwa [declared_size])]
    exact declared_node hd
  · rw [h.names]
    exact hindex.named
  · rw [h.names]
    exact hindex.ending
  · rw [h.names]
    exact hindex.within

theorem placeholder_resolution (b : GraphBuilder) (target : String) (kind : DependencyKind) :
    (b.placeholder target kind).2.resolution =
      if kind = .imports then .external else .unresolved := by
  cases kind <;> (unfold placeholder; split; split <;> simp_all)

/-- The edge of a dependency ends at what the dependency means. -/
theorem edgeOf_means {files : List FileFacts} {b : GraphBuilder}
    (h : (declared files).Extends b) (u : Slot × Dependency) :
    Means (declarations files) (u.1.origin u.2) u.2 (b.edgeOf u).target
      (b.edgeOf u).resolution := by
  unfold Means edgeOf found
  by_cases hk : u.2.kind = .imports
  · rw [if_pos hk]
    have hmeans := h.knows.import_means (o := u.1.origin u.2) u.2.target
    rw [hk]
    cases hr : b.table.resolve? u.2.target .imports (u.1.origin u.2) with
    | some c => simpa only [hr] using hmeans
    | none =>
      rw [hr] at hmeans
      simpa only [placeholder_resolution, if_true] using hmeans _
  · rw [if_neg hk]
    have hmeans := h.knows.use_means (o := u.1.origin u.2) u.2.target hk
    cases hr : b.table.resolve? u.2.target u.2.kind (u.1.origin u.2) with
    | some c => simpa only [hr] using hmeans
    | none =>
      rw [hr] at hmeans
      simpa only [placeholder_resolution, if_neg hk] using hmeans _

end GraphBuilder

/-- Every edge ends at what its dependency means, position by position: at a candidate of the first
stage that has any, labelled with the stage and the way in which it was found; for imports the first
inserted of the candidates with the fewest demerits, so that an import can mean nothing else. -/
theorem edges_mean (files : List FileFacts) :
    List.Forall₂ (fun e u =>
        Means (declarations files) (u.1.origin u.2) u.2 e.target e.resolution ∧
        (u.2.kind = .imports → ∀ i r, Means (declarations files) (u.1.origin u.2) u.2 i r →
          r = e.resolution ∧ (r ≠ .external → i = e.target)))
      (DependencyGraph.ofFiles files).edges.toList (uses files) := by
  refine forall₂_edges files fun b hb u _ => ?_
  have hmeans := GraphBuilder.edgeOf_means hb u
  refine ⟨hmeans, ?_⟩
  intro hk i r hother
  unfold Means at hmeans hother
  rw [if_pos hk] at hmeans hother
  exact hother.unique hmeans

end CodeAtlas
