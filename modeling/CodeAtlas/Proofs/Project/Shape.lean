import CodeAtlas.Proofs.Project.Roles
import Mathlib.Data.List.Perm.Subperm
/-!
The shape of a project and the patterns found in it. Both look at the services, at the nested
manifests and at the layers, and they agree on what these show (`shape_fits_patterns`).
-/
namespace CodeAtlas

namespace Pattern

def rule? (s : ProjectStructure) (g : DependencyGraph) : PatternTag → Option Pattern
  | .layered => layered? s g
  | .monorepo => monorepo? s
  | .microservices => microservices? s g
  | .mvc => mvc? s
  | .hexagonal => hexagonal? s g

def Shows (s : ProjectStructure) (g : DependencyGraph) (tag : PatternTag) : Prop :=
  ∃ p ∈ detect s g, p.tag = tag

section Rules

variable {s : ProjectStructure} {g : DependencyGraph}

theorem tag_of_ite {c : Prop} [Decidable c] {p q : Pattern}
    (h : (if c then none else some q) = some p) : p.tag = q.tag := by
  obtain ⟨-, hq⟩ := Option.ite_none_left_eq_some.mp h
  rw [Option.some.inj hq]

theorem tag_of_rule? {tag : PatternTag} {p : Pattern} (h : rule? s g tag = some p) :
    p.tag = tag := by
  cases tag with
  | layered => exact tag_of_ite h
  | monorepo => exact tag_of_ite h
  | microservices => exact tag_of_ite h
  | mvc => exact tag_of_ite h
  | hexagonal => exact tag_of_ite h

/-- A pattern is detected exactly if the rule of its tag gives it. -/
theorem mem_detect_iff {p : Pattern} : p ∈ detect s g ↔ rule? s g p.tag = some p := by
  unfold detect
  rw [List.mem_mergeSort, List.mem_filterMap]
  constructor
  · intro ⟨o, ho, hp⟩
    have hrule : ∃ tag, rule? s g tag = o := by
      simp only [List.mem_cons, List.not_mem_nil, or_false] at ho
      rcases ho with rfl | rfl | rfl | rfl | rfl
      · exact ⟨.layered, rfl⟩
      · exact ⟨.monorepo, rfl⟩
      · exact ⟨.microservices, rfl⟩
      · exact ⟨.mvc, rfl⟩
      · exact ⟨.hexagonal, rfl⟩
    obtain ⟨tag, htag⟩ := hrule
    have hsome : rule? s g tag = some p := htag.trans hp
    rwa [tag_of_rule? hsome]
  · intro h
    refine ⟨rule? s g p.tag, ?_, h⟩
    cases p.tag <;> simp [rule?]

/-- A pattern is found if its rule yields it. -/
theorem shows_iff (tag : PatternTag) : Shows s g tag ↔ (rule? s g tag).isSome = true := by
  rw [Option.isSome_iff_exists]
  constructor
  · rintro ⟨p, hp, rfl⟩
    exact ⟨p, mem_detect_iff.mp hp⟩
  · intro ⟨p, hp⟩
    have htag : p.tag = tag := tag_of_rule? hp
    exact ⟨p, mem_detect_iff.mpr (htag.symm ▸ hp), htag⟩

theorem isSome_ite_iff {c : Prop} [Decidable c] (p : Pattern) :
    (if c then none else some p).isSome = true ↔ ¬ c := by
  by_cases hc : c
  · simp [hc]
  · simp [hc]

theorem shows_microservices_iff :
    Shows s g .microservices ↔ 2 ≤ (services s.manifests s.entryPoints).length := by
  rw [shows_iff, ← Nat.not_lt]
  exact isSome_ite_iff _

theorem isSome_monorepo?_iff :
    (monorepo? s).isSome = true ↔ 2 ≤ s.manifests.countP Manifest.isNested := by
  rw [List.countP_eq_length_filter, ← Nat.not_lt]
  exact isSome_ite_iff _

theorem shows_monorepo_iff :
    Shows s g .monorepo ↔ 2 ≤ s.manifests.countP Manifest.isNested :=
  (shows_iff .monorepo).trans isSome_monorepo?_iff

/-- The layers of the files are those that have directories. -/
theorem length_roleDirs_layers (files : List SourceFile) :
    (roleDirs Layer.ofDir? Layer.all files).length = (layersOf files).length := by
  rw [← map_fst_roleDirs_layers, List.length_map]

theorem shows_layered_iff : Shows s g .layered ↔ 2 ≤ (layersOf s.files).length ∧
    ((roleEdges Layer.ofDir? g).filter fun ((a, b), _) => a != b) ≠ [] := by
  rw [shows_iff, ← length_roleDirs_layers]
  apply (isSome_ite_iff _).trans
  rw [Bool.or_eq_true, not_or, decide_eq_true_iff, Nat.not_lt, List.isEmpty_iff]

theorem two_le_layersOf (h : Shows s g .layered) : 2 ≤ (layersOf s.files).length :=
  (shows_layered_iff.mp h).1

end Rules

end Pattern

section Packages

variable (manifests : List Manifest) (entryPoints : List Path)

theorem services_subset : services manifests entryPoints ⊆ topLevelPackages manifests := by
  intro d hd
  exact List.contains_iff_mem.mp (List.mem_filter.mp (Ordered.strings_subset _ hd)).2

theorem length_services_le_packages :
    (services manifests entryPoints).length ≤ (topLevelPackages manifests).length := by
  have hdistinct : (services manifests entryPoints).Nodup := Ordered.strings_nodup _
  exact (hdistinct.subperm (services_subset manifests entryPoints)).length_le

/-- Every package directly below the root has a manifest of its own. -/
theorem length_topLevelPackages_le :
    (topLevelPackages manifests).length ≤ manifests.countP Manifest.isNested := by
  have hdistinct : (topLevelPackages manifests).Nodup := Ordered.strings_nodup _
  have hsubset : topLevelPackages manifests ⊆ _ := Ordered.strings_subset _
  calc (topLevelPackages manifests).length
      ≤ ((manifests.filter fun m => m.depth == 1).map fun m => m.dir.text).length :=
        (hdistinct.subperm hsubset).length_le
    _ = manifests.countP fun m => m.depth == 1 := by
        rw [List.length_map, List.countP_eq_length_filter]
    _ ≤ manifests.countP Manifest.isNested := by
        apply List.countP_mono_left
        intro m _ hm
        have hdepth : m.depth = 1 := beq_iff_eq.mp hm
        rw [Manifest.isNested, hdepth]
        rfl

theorem length_services_le :
    (services manifests entryPoints).length ≤ manifests.countP Manifest.isNested :=
  (length_services_le_packages manifests entryPoints).trans (length_topLevelPackages_le manifests)

end Packages

section Types

variable (files : List SourceFile) (manifests : List Manifest) (entryPoints : List Path)

theorem projectType_eq_microservices_iff :
    projectType files manifests entryPoints = .microservices ↔
      2 ≤ (services manifests entryPoints).length := by
  unfold projectType
  by_cases hservices : 2 ≤ (services manifests entryPoints).length
  · simp only [hservices, if_true]
  · simp only [hservices, if_false, iff_false]
    split_ifs <;> exact nofun

/-- A monorepo has several nested manifests and less than two services. -/
theorem projectType_eq_monorepo_iff :
    projectType files manifests entryPoints = .monorepo ↔
      (services manifests entryPoints).length < 2 ∧ 2 ≤ manifests.countP Manifest.isNested := by
  unfold projectType
  by_cases hservices : 2 ≤ (services manifests entryPoints).length
  · have hnot : ¬ (services manifests entryPoints).length < 2 := Nat.not_lt.mpr hservices
    simp only [hservices, hnot, if_true, false_and, reduceCtorEq]
  · simp only [hservices, Nat.not_le.mp hservices, if_false, true_and]
    by_cases hnested : 2 ≤ manifests.countP Manifest.isNested
    · simp only [hnested, if_true]
    · simp only [hnested, if_false, iff_false]
      split_ifs <;> exact nofun

theorem projectType_of_layers (h : 2 ≤ (layersOf files).length) :
    projectType files manifests entryPoints ≠ .singlePackage ∧
      projectType files manifests entryPoints ≠ .unstructured := by
  unfold projectType
  rw [if_pos h]
  split_ifs <;> exact ⟨nofun, nofun⟩

end Types

/-- The shape of a project and its patterns agree: it has the pattern of microservices exactly if
that is its shape, and the pattern of a monorepo exactly if it has one of these two shapes, so that
the first pattern never comes without the second. Where the pattern of layers is found, the shape is
no single package and not without structure. -/
theorem shape_fits_patterns (root : Path) (files : List SourceFile) (manifests : List Manifest)
    (g : DependencyGraph) :
    let s := ProjectStructure.ofFiles root files manifests
    (Pattern.Shows s g .microservices ↔ s.projectType = .microservices) ∧
    (Pattern.Shows s g .monorepo ↔
      s.projectType = .microservices ∨ s.projectType = .monorepo) ∧
    (Pattern.Shows s g .microservices → Pattern.Shows s g .monorepo) ∧
    (Pattern.Shows s g .layered →
      s.projectType ≠ .singlePackage ∧ s.projectType ≠ .unstructured) := by
  intro s
  have htype : s.projectType = projectType s.files s.manifests s.entryPoints := rfl
  have hservices : (services s.manifests s.entryPoints).length ≤
      s.manifests.countP Manifest.isNested := length_services_le _ _
  rw [htype, Pattern.shows_microservices_iff, Pattern.shows_monorepo_iff,
    projectType_eq_microservices_iff, projectType_eq_monorepo_iff]
  refine ⟨Iff.rfl, by omega, by omega, ?_⟩
  intro hlayered
  exact projectType_of_layers _ _ _ (Pattern.two_le_layersOf hlayered)

end CodeAtlas
