import CodeAtlas.Proofs.Graph.Identifiers
import CodeAtlas.Proofs.Project.Shape
import Mathlib.Algebra.Order.Field.Basic
import Mathlib.Algebra.Order.Field.Rat
import Mathlib.Order.Interval.Set.Defs
/-!
The confidences of patterns as exact numbers. What a rule counts is a number of edges, of
directories or of roles, and each is divided by a number that it never exceeds (`CountsFit`) and
that is not zero where the rule applies. So a confidence lies between zero and one before anything
is cut off, and that of layers is one exactly if no edge points backwards
(`confidences_are_shares`).
-/
namespace CodeAtlas

namespace Ratio

def exact (r : Ratio) : ℚ :=
  r.part / r.whole

structure IsShare (r : Ratio) : Prop where
  whole_pos : 0 < r.whole
  part_le : r.part ≤ r.whole

theorem isShare_one : one.IsShare :=
  ⟨Nat.one_pos, le_rfl⟩

theorem isShare_zero : zero.IsShare :=
  ⟨Nat.one_pos, Nat.zero_le 1⟩

theorem isShare_orZero {part whole : Nat} (h : part ≤ whole) : (orZero part whole).IsShare := by
  unfold orZero
  split
  · exact isShare_zero
  · rename_i hwhole
    exact ⟨Nat.pos_of_ne_zero hwhole, h⟩

theorem exact_one : one.exact = 1 :=
  div_self (Nat.cast_ne_zero.mpr Nat.one_ne_zero)

variable {r : Ratio}

theorem IsShare.exact_mem (h : r.IsShare) : r.exact ∈ Set.Icc (0 : ℚ) 1 := by
  have hwhole : (0 : ℚ) < r.whole := Nat.cast_pos.mpr h.whole_pos
  constructor
  · exact div_nonneg (Nat.cast_nonneg _) hwhole.le
  · apply (div_le_one hwhole).mpr
    exact Nat.cast_le.mpr h.part_le

theorem IsShare.exact_eq_zero_iff (h : r.IsShare) : r.exact = 0 ↔ r.part = 0 := by
  have hwhole : (r.whole : ℚ) ≠ 0 := Nat.cast_ne_zero.mpr h.whole_pos.ne'
  rw [exact, div_eq_zero_iff, or_iff_left hwhole, Nat.cast_eq_zero]

end Ratio

namespace Confidence

/-- The confidence before it is rounded and cut off. -/
def exact (c : Confidence) : ℚ :=
  c.share.exact * (1 - c.penalty.exact)

/-- No ratio is divided by zero or exceeds one. -/
structure IsProper (c : Confidence) : Prop where
  share : c.share.IsShare
  penalty : c.penalty.IsShare

/-- A proper confidence lies between zero and one. -/
theorem IsProper.exact_mem {c : Confidence} (h : c.IsProper) : c.exact ∈ Set.Icc (0 : ℚ) 1 := by
  obtain ⟨hshare, hshare'⟩ := h.share.exact_mem
  obtain ⟨hpenalty, hpenalty'⟩ := h.penalty.exact_mem
  have hleft : 0 ≤ 1 - c.penalty.exact := sub_nonneg.mpr hpenalty'
  constructor
  · exact mul_nonneg hshare hleft
  · calc c.share.exact * (1 - c.penalty.exact)
        ≤ 1 * (1 - c.penalty.exact) := mul_le_mul_of_nonneg_right hshare' hleft
      _ = 1 - c.penalty.exact := one_mul _
      _ ≤ 1 := sub_le_self 1 hpenalty

end Confidence

namespace Pattern

section Joins

variable {R : Type} (role : String → Option R) (g : DependencyGraph)

def joins (rel : R → R → Bool) (v : EdgeView) : Bool :=
  (ends? role v).any fun (a, b) => rel a b

/-- An edge joins two roles exactly if both of its ends have one and these are related. -/
theorem joins_iff (rel : R → R → Bool) (v : EdgeView) :
    joins role rel v = true ↔ ∃ p q, v.source.file = some p ∧ v.target.file = some q ∧
      ∃ a b, roleOf? role p = some a ∧ roleOf? role q = some b ∧ rel a b = true := by
  unfold joins ends?
  cases v.source.file with
  | none => simp
  | some p =>
    cases v.target.file with
    | none => simp
    | some q => cases hp : roleOf? role p <;> cases hq : roleOf? role q <;> simp [hp, hq]

theorem length_filter_roleEdges (rel : R → R → Bool) :
    ((roleEdges role g).filter fun ((a, b), _) => rel a b).length =
      g.views.countP (joins role rel) := by
  rw [← List.countP_eq_length_filter, roleEdges, List.countP_filterMap]
  apply List.countP_congr
  intro v _
  unfold joins
  cases ends? role v <;> rfl

/-- Of fewer pairs of roles there are no more edges. -/
theorem countP_joins_le {rel rel' : R → R → Bool} (h : ∀ a b, rel a b = true → rel' a b = true) :
    g.views.countP (joins role rel) ≤ g.views.countP (joins role rel') := by
  apply List.countP_mono_left
  intro v _ hv
  obtain ⟨p, q, hp, hq, a, b, ha, hb, hrel⟩ := (joins_iff role rel v).mp hv
  exact (joins_iff role rel' v).mpr ⟨p, q, hp, hq, a, b, ha, hb, h a b hrel⟩

theorem length_roleDirs_le [DecidableEq R] (roles : List R) (files : List SourceFile) :
    (roleDirs role roles files).length ≤ roles.length := by
  unfold roleDirs
  calc _ ≤ (roles.map _).length := List.length_filter_le _ _
    _ = roles.length := List.length_map _

end Joins

def backwards (a b : Layer) : Bool :=
  b.rank < a.rank

theorem ne_of_backwards {a b : Layer} (h : backwards a b = true) : (a != b) = true := by
  rw [bne_iff_ne]
  rintro rfl
  exact lt_irrefl _ (of_decide_eq_true h)

def atBoundary (a b : BoundaryRole) : Bool :=
  (a == .adapters) != (b == .adapters)

def outwards (a b : BoundaryRole) : Bool :=
  a != .adapters && b == .adapters

theorem atBoundary_of_outwards {a b : BoundaryRole} (h : outwards a b = true) :
    atBoundary a b = true := by
  cases a <;> cases b <;> first | rfl | cases h

section Imports

variable (services : List String) (g : DependencyGraph)

/-- An import that leads from a file of a service to another file of the project, where that service
and the one of the other file, if any, stand in a relation. -/
def leads (rel : String → Option String → Bool) (v : EdgeView) : Bool :=
  v.edge.kind == .imports && !sameFile v.source v.target &&
    match v.source.file.bind (serviceOf? services), v.target.file with
    | some home, some file => rel home (serviceOf? services file)
    | _, _ => false

def crossing (home : String) (there : Option String) : Bool :=
  there.any (· != home)

/-- The imports that leave a service, counted on the edges of the graph. -/
theorem countP_leavingImports (rel : String → Option String → Bool) :
    (leavingImports services g).countP (fun ((a, b), _) => rel a b) =
      g.views.countP (leads services rel) := by
  rw [leavingImports, List.countP_filterMap]
  apply List.countP_congr
  intro v _
  have hguard : (v.edge.kind != .imports || sameFile v.source v.target) =
      !(v.edge.kind == .imports && !sameFile v.source v.target) := by
    rw [Bool.not_and, Bool.not_not]
    rfl
  rw [hguard, leads]
  cases v.edge.kind == .imports && !sameFile v.source v.target with
  | false => rfl
  | true =>
    cases v.source.file.bind (serviceOf? services) with
    | none => rfl
    | some home => cases v.target.file <;> rfl

theorem length_leavingImports :
    (leavingImports services g).length = g.views.countP (leads services fun _ _ => true) := by
  rw [← countP_leavingImports, List.countP_true]

theorem countP_crossing_le :
    g.views.countP (leads services crossing) ≤
      g.views.countP (leads services fun _ _ => true) := by
  rw [← countP_leavingImports, ← length_leavingImports]
  exact List.countP_le_length

end Imports

variable {s : ProjectStructure} {g : DependencyGraph}

/-- Where there are nested manifests, they lie in directories. -/
theorem packageDirs_ne_nil (h : Shows s g .monorepo) : packageDirs s.manifests ≠ [] := by
  have hnested : 2 ≤ s.manifests.countP Manifest.isNested := shows_monorepo_iff.mp h
  rw [List.countP_eq_length_filter] at hnested
  rw [packageDirs, ne_eq, Ordered.ofList_eq_nil_iff, List.map_eq_nil_iff]
  intro hnil
  rw [hnil] at hnested
  exact absurd hnested (by decide)

/-- Every number that is divided is at most the one that it is divided by. -/
structure CountsFit (s : ProjectStructure) (g : DependencyGraph) : Prop where
  layers : g.views.countP (joins Layer.ofDir? backwards) ≤
    g.views.countP (joins Layer.ofDir? (· != ·))
  sources : (packageDirs s.manifests).countP (hasSources s.files) ≤
    (packageDirs s.manifests).length
  packages : Shows s g .monorepo → packageDirs s.manifests ≠ []
  services : (services s.manifests s.entryPoints).length ≤ (topLevelPackages s.manifests).length
  imports : g.views.countP (leads (CodeAtlas.services s.manifests s.entryPoints) crossing) ≤
    g.views.countP (leads (CodeAtlas.services s.manifests s.entryPoints) fun _ _ => true)
  boundary : g.views.countP (joins BoundaryRole.ofDir? outwards) ≤
    g.views.countP (joins BoundaryRole.ofDir? atBoundary)

theorem countsFit (s : ProjectStructure) (g : DependencyGraph) : CountsFit s g where
  layers := countP_joins_le _ g fun _ _ => ne_of_backwards
  sources := List.countP_le_length
  packages := packageDirs_ne_nil
  services := length_services_le_packages _ _
  imports := countP_crossing_le _ g
  boundary := countP_joins_le _ g fun _ _ => atBoundary_of_outwards

def tally (s : ProjectStructure) (g : DependencyGraph) : PatternTag → Confidence
  | .layered =>
    ⟨.one, ⟨g.views.countP (joins Layer.ofDir? backwards),
      g.views.countP (joins Layer.ofDir? (· != ·))⟩⟩
  | .monorepo =>
    ⟨⟨(packageDirs s.manifests).countP (hasSources s.files), (packageDirs s.manifests).length⟩,
      .zero⟩
  | .microservices =>
    let services := services s.manifests s.entryPoints
    ⟨⟨services.length, (topLevelPackages s.manifests).length⟩,
      .orZero (g.views.countP (leads services crossing))
        (g.views.countP (leads services fun _ _ => true))⟩
  | .mvc => ⟨⟨(roleDirs InterfaceRole.ofDir? InterfaceRole.all s.files).length, 3⟩, .zero⟩
  | .hexagonal =>
    ⟨⟨(roleDirs BoundaryRole.ofDir? BoundaryRole.all s.files).length, 3⟩,
      .orZero (g.views.countP (joins BoundaryRole.ofDir? outwards))
        (g.views.countP (joins BoundaryRole.ofDir? atBoundary))⟩

theorem length_reverse :
    (((roleEdges Layer.ofDir? g).filter fun ((a, b), _) => a != b).filter
      fun ((a, b), _) => b.rank < a.rank).length =
        g.views.countP (joins Layer.ofDir? backwards) := by
  rw [← length_filter_roleEdges, List.filter_filter]
  congr 1
  apply List.filter_congr
  rintro ⟨⟨a, b⟩, v⟩ -
  exact Bool.and_eq_left_iff_imp.mpr ne_of_backwards

theorem length_outward :
    (((roleEdges BoundaryRole.ofDir? g).filter fun ((a, b), _) =>
        (a == .adapters) != (b == .adapters)).filter fun ((_, b), _) => b == .adapters).length =
      g.views.countP (joins BoundaryRole.ofDir? outwards) := by
  rw [← length_filter_roleEdges, List.filter_filter]
  congr 1
  apply List.filter_congr
  rintro ⟨⟨a, b⟩, v⟩ -
  cases a <;> cases b <;> rfl

theorem confidence_of_ite {c : Prop} [Decidable c] {p q : Pattern}
    (h : (if c then none else some q) = some p) : p.confidence = q.confidence := by
  obtain ⟨-, hq⟩ := Option.ite_none_left_eq_some.mp h
  rw [Option.some.inj hq]

/-- The confidence of a pattern is a count over the graph and the project. -/
theorem confidence_eq_tally {tag : PatternTag} {p : Pattern} (h : rule? s g tag = some p) :
    p.confidence = tally s g tag := by
  cases tag with
  | layered =>
    rw [confidence_of_ite h, tally, ← length_reverse, ← length_filter_roleEdges]
  | monorepo => exact confidence_of_ite h
  | microservices =>
    have hmax := Nat.max_eq_left (length_services_le_packages s.manifests s.entryPoints)
    rw [confidence_of_ite h, hmax, tally, ← countP_leavingImports, ← length_leavingImports,
      List.countP_eq_length_filter]
    rfl
  | mvc => exact confidence_of_ite h
  | hexagonal =>
    rw [confidence_of_ite h, tally, ← length_outward, ← length_filter_roleEdges]
    rfl

/-- Where a pattern is found, its counts make two shares. -/
theorem isProper_tally {tag : PatternTag} (h : Shows s g tag) : (tally s g tag).IsProper := by
  have hfit : CountsFit s g := countsFit s g
  cases tag with
  | layered =>
    have hbetween := List.length_pos_iff.mpr (shows_layered_iff.mp h).2
    rw [length_filter_roleEdges] at hbetween
    exact ⟨Ratio.isShare_one, hbetween, hfit.layers⟩
  | monorepo =>
    exact ⟨⟨List.length_pos_iff.mpr (hfit.packages h), hfit.sources⟩, Ratio.isShare_zero⟩
  | microservices =>
    have htwo : 2 ≤ (services s.manifests s.entryPoints).length := shows_microservices_iff.mp h
    have hpackages : 0 < (topLevelPackages s.manifests).length := by
      have := hfit.services
      omega
    exact ⟨⟨hpackages, hfit.services⟩, Ratio.isShare_orZero hfit.imports⟩
  | mvc => exact ⟨⟨Nat.succ_pos 2, length_roleDirs_le _ _ _⟩, Ratio.isShare_zero⟩
  | hexagonal =>
    exact ⟨⟨Nat.succ_pos 2, length_roleDirs_le _ _ _⟩, Ratio.isShare_orZero hfit.boundary⟩

def HasBackwardEdge (g : DependencyGraph) : Prop :=
  ∃ e ∈ g.edges, ∃ source target, g.nodes[e.source]? = some source ∧
    g.nodes[e.target]? = some target ∧ ∃ p q, source.file = some p ∧ target.file = some q ∧
      ∃ a b, Layer.ofPath? p = some a ∧ Layer.ofPath? q = some b ∧ b.rank < a.rank

/-- There is a backward edge exactly if one is counted. -/
theorem hasBackwardEdge_iff :
    HasBackwardEdge g ↔ 0 < g.views.countP (joins Layer.ofDir? backwards) := by
  rw [List.countP_pos_iff]
  simp only [joins_iff, ← Layer.ofPath?_eq, backwards, decide_eq_true_iff]
  constructor
  · rintro ⟨e, he, source, target, hs, ht, hends⟩
    have hview : g.view? e = some ⟨source, target, e⟩ :=
      DependencyGraph.view?_eq_some_iff.mpr ⟨hs, ht, rfl⟩
    exact ⟨_, List.mem_filterMap.mpr ⟨e, Array.mem_toList_iff.mpr he, hview⟩, hends⟩
  · rintro ⟨v, hv, hends⟩
    obtain ⟨e, he, hview⟩ := List.mem_filterMap.mp hv
    obtain ⟨hs, ht, -⟩ := DependencyGraph.view?_eq_some_iff.mp hview
    exact ⟨e, Array.mem_toList_iff.mp he, _, _, hs, ht, hends⟩

theorem exact_layered_eq_one_iff (h : Shows s g .layered) :
    (tally s g .layered).exact = 1 ↔ ¬ HasBackwardEdge g := by
  have hpenalty := (isProper_tally h).penalty.exact_eq_zero_iff
  calc (tally s g .layered).exact = 1
      ↔ 1 - (tally s g .layered).penalty.exact = 1 := by
        rw [Confidence.exact, tally, Ratio.exact_one, one_mul]
    _ ↔ (tally s g .layered).penalty.exact = 0 := sub_eq_self
    _ ↔ g.views.countP (joins Layer.ofDir? backwards) = 0 := hpenalty
    _ ↔ ¬ HasBackwardEdge g := by rw [hasBackwardEdge_iff, Nat.pos_iff_ne_zero, not_not]

/-- For a project of any files and any graph, the confidence of a pattern that is found comes from
counts of which none exceeds the one it is divided by. None of these is zero, and so the confidence
lies between zero and one as it is computed. Sure of its layers is a project exactly if no edge goes
back to a file of an earlier one. -/
theorem confidences_are_shares (root : Path) (files : List SourceFile)
    (manifests : List Manifest) (g : DependencyGraph) :
    let s := ProjectStructure.ofFiles root files manifests
    CountsFit s g ∧
    (∀ p ∈ detect s g, p.confidence = tally s g p.tag ∧ p.confidence.IsProper ∧
      p.confidence.exact ∈ Set.Icc (0 : ℚ) 1) ∧
    (∀ p ∈ detect s g, p.tag = .layered →
      (p.confidence.exact = 1 ↔ ¬ HasBackwardEdge g)) := by
  intro s
  refine ⟨countsFit s g, fun p hp => ?_, fun p hp htag => ?_⟩
  · have hproper : (tally s g p.tag).IsProper := isProper_tally ⟨p, hp, rfl⟩
    rw [confidence_eq_tally (mem_detect_iff.mp hp)]
    exact ⟨rfl, hproper, hproper.exact_mem⟩
  · rw [confidence_eq_tally (mem_detect_iff.mp hp), htag]
    exact exact_layered_eq_one_iff ⟨p, hp, htag⟩

def twoLayers : List SourceFile :=
  [.ofPath ⟨"api/users.py"⟩ .python 10, .ofPath ⟨"db/store.py"⟩ .python 10]

def bothWays : DependencyGraph where
  nodes := #[⟨"api.users", .module, none, some ⟨"api/users.py"⟩, some .python, none⟩,
    ⟨"db.store", .module, none, some ⟨"db/store.py"⟩, some .python, none⟩]
  edges := #[⟨0, 1, .imports, .exact, "db.store", default⟩,
    ⟨1, 0, .imports, .exact, "api.users", default⟩]
  index := ∅
  cycles := []

theorem confidences_are_shares_both_ways :
    let s := ProjectStructure.ofFiles ⟨""⟩ twoLayers []
    ∃ p ∈ detect s bothWays, p.tag = .layered ∧ p.confidence.exact ∈ Set.Icc (0 : ℚ) 1 ∧
      p.confidence.exact ≠ 1 := by
  intro s
  obtain ⟨-, hmem, hlayered⟩ := confidences_are_shares ⟨""⟩ twoLayers [] bothWays
  have hsorted : s.files = twoLayers := List.mergeSort_of_pairwise (by decide +kernel)
  obtain ⟨p, hp, htag⟩ : Shows s bothWays .layered := by
    rw [shows_layered_iff, hsorted]
    exact ⟨by decide +kernel, by decide +kernel⟩
  have hback : HasBackwardEdge bothWays :=
    ⟨bothWays.edges[1], by simp, _, _, rfl, rfl, _, _, rfl, rfl, .data, .presentation,
      by decide +kernel, by decide +kernel, by decide⟩
  refine ⟨p, hp, htag, (hmem p hp).2.2, ?_⟩
  rw [ne_eq, hlayered p hp htag, not_not]
  exact hback

end Pattern

end CodeAtlas
