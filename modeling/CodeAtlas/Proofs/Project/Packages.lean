import CodeAtlas.Proofs.Path.Order
import CodeAtlas.Proofs.Project.Shape
/-!
The packages below the root. The rules for a monorepo count manifests, and one package may carry
several of them, so that a project with one package can look like a monorepo. They are right about
all others: they find two packages wherever the nested manifests do not all lie in one directory
(`monorepo_has_packages_iff`).
-/
namespace CodeAtlas

def Carries (manifests : List Manifest) (dir : Path) : Prop :=
  ∃ m ∈ manifests, m.dir.components = dir.components

/-- Two different directories below the root, which is the empty path, directly hold manifests. -/
def HasPackages (manifests : List Manifest) : Prop :=
  ∃ d e : Path, d.components ≠ [] ∧ e.components ≠ [] ∧ d.components ≠ e.components ∧
    Carries manifests d ∧ Carries manifests e

/-- There are several nested manifests, and all lie in one directory. -/
def OnePackage (manifests : List Manifest) : Prop :=
  2 ≤ manifests.countP Manifest.isNested ∧
    ∃ dir : Path, ∀ m ∈ manifests, m.isNested = true → m.dir.components = dir.components

theorem Manifest.isNested_iff (m : Manifest) : m.isNested = true ↔ m.dir.components ≠ [] := by
  rw [Manifest.isNested, decide_eq_true_iff, Nat.one_le_iff_ne_zero, Manifest.depth, ne_eq,
    List.length_eq_zero_iff]

variable {manifests : List Manifest}

/-- There are packages exactly if two nested manifests lie in different directories. -/
theorem hasPackages_iff : HasPackages manifests ↔
    ∃ m ∈ manifests, ∃ n ∈ manifests, m.isNested = true ∧ n.isNested = true ∧
      m.dir.components ≠ n.dir.components := by
  simp only [Manifest.isNested_iff]
  constructor
  · rintro ⟨d, e, hd, he, hne, ⟨m, hm, hmd⟩, ⟨n, hn, hne'⟩⟩
    rw [← hmd, ← hne'] at hne
    exact ⟨m, hm, n, hn, hmd ▸ hd, hne' ▸ he, hne⟩
  · rintro ⟨m, hm, n, hn, hmd, hnd, hne⟩
    exact ⟨m.dir, n.dir, hmd, hnd, hne, ⟨m, hm, rfl⟩, ⟨n, hn, rfl⟩⟩

theorem hasPackages_perm {manifests' : List Manifest} (h : manifests.Perm manifests') :
    HasPackages manifests ↔ HasPackages manifests' := by
  simp only [hasPackages_iff, h.mem_iff]

theorem onePackage_perm {manifests' : List Manifest} (h : manifests.Perm manifests') :
    OnePackage manifests ↔ OnePackage manifests' := by
  simp only [OnePackage, h.mem_iff, h.countP_eq]

theorem HasPackages.not_onePackage (h : HasPackages manifests) : ¬ OnePackage manifests := by
  obtain ⟨m, hm, n, hn, hmn, hnn, hne⟩ := hasPackages_iff.mp h
  rintro ⟨-, dir, hall⟩
  rw [hall m hm hmn, hall n hn hnn] at hne
  exact hne rfl

/-- Several nested manifests make packages unless they lie in one directory. -/
theorem hasPackages_iff_not_onePackage (h : 2 ≤ manifests.countP Manifest.isNested) :
    HasPackages manifests ↔ ¬ OnePackage manifests := by
  refine ⟨HasPackages.not_onePackage, fun hone => ?_⟩
  obtain ⟨m, hm, hnested⟩ := List.countP_pos_iff.mp (Nat.zero_lt_of_lt h)
  by_contra hnone
  refine hone ⟨h, m.dir, fun n hn hnn => ?_⟩
  by_contra hne
  exact hnone (hasPackages_iff.mpr ⟨n, hn, m, hm, hnn, hnested, hne⟩)

/-- The packages are those that the pattern counts. -/
theorem hasPackages_iff_packageDirs :
    HasPackages manifests ↔ 2 ≤ (Pattern.packageDirs manifests).length := by
  have htrans (p q r : Path) : p.le q = true → q.le r = true → p.le r = true := Path.le_trans
  have htotal (p q : Path) : p.le q = true ∨ q.le p = true :=
    (Bool.or_eq_true _ _).mp (Path.le_total p q)
  rw [Pattern.packageDirs, Ordered.two_le_length_ofList_iff htrans htotal, hasPackages_iff]
  constructor
  · rintro ⟨m, hm, n, hn, hmn, hnn, hne⟩
    have hdir {k : Manifest} (hk : k ∈ manifests) (hkn : k.isNested = true) :
        k.dir ∈ (manifests.filter Manifest.isNested).map Manifest.dir :=
      List.mem_map_of_mem (List.mem_filter.mpr ⟨hk, hkn⟩)
    rcases htotal m.dir n.dir with hle | hle
    · have hlt := Path.compare_eq_lt hle hne
      exact ⟨_, hdir hm hmn, _, hdir hn hnn, Path.not_le_of_compare_lt hlt⟩
    · have hlt := Path.compare_eq_lt hle hne.symm
      exact ⟨_, hdir hn hnn, _, hdir hm hmn, Path.not_le_of_compare_lt hlt⟩
  · rintro ⟨d, hd, e, he, hle⟩
    obtain ⟨m, hm, rfl⟩ := List.mem_map.mp hd
    obtain ⟨n, hn, rfl⟩ := List.mem_map.mp he
    obtain ⟨hm, hmn⟩ := List.mem_filter.mp hm
    obtain ⟨hn, hnn⟩ := List.mem_filter.mp hn
    refine ⟨m, hm, n, hn, hmn, hnn, fun heq => ?_⟩
    rw [Path.le, Path.compare_of_components heq.symm] at hle
    cases hle

section Services

/-- A service is a package directly below the root. -/
theorem carries_of_service {entryPoints : List Path} {d : String}
    (h : d ∈ services manifests entryPoints) :
    Carries manifests ⟨d⟩ ∧ ∃ c : Component, c.text = d ∧ (⟨d⟩ : Path).components = [c] := by
  have htop := (List.mem_filter.mp (Ordered.strings_subset _ h)).1
  obtain ⟨entry, -, hentry⟩ := List.mem_filterMap.mp htop
  have hdir := Ordered.strings_subset _ (services_subset manifests entryPoints h)
  obtain ⟨m, hm, hmd⟩ := List.mem_map.mp hdir
  refine ⟨⟨m, (List.mem_filter.mp hm).1, by rw [← hmd]⟩, ?_⟩
  unfold topLevelDir? at hentry
  split at hentry
  · rename_i first _ _ hcomponents
    obtain rfl := Option.some.inj hentry
    exact ⟨first, rfl, Path.components_first hcomponents⟩
  · cases hentry

/-- Two services are two packages. -/
theorem hasPackages_of_services {entryPoints : List Path}
    (h : 2 ≤ (services manifests entryPoints).length) : HasPackages manifests := by
  have hdistinct : (services manifests entryPoints).Nodup := Ordered.strings_nodup _
  have hservice (d : String) (hd : d ∈ services manifests entryPoints) := carries_of_service hd
  generalize services manifests entryPoints = found at h hdistinct hservice
  match found with
  | d :: e :: rest =>
    obtain ⟨hd, c, hcd, hc⟩ := hservice d (by simp)
    obtain ⟨he, c', hce, hc'⟩ := hservice e (by simp)
    refine ⟨⟨d⟩, ⟨e⟩, by simp [hc], by simp [hc'], fun heq => ?_, hd, he⟩
    rw [hc, hc', List.singleton_inj] at heq
    rw [← hcd, ← hce, heq] at hdistinct
    simp at hdistinct

end Services

theorem monorepo?_packages_iff (s : ProjectStructure) :
    ((Pattern.monorepo? s).isSome = true → HasPackages s.manifests) ↔
      ¬ OnePackage s.manifests := by
  rw [Pattern.isSome_monorepo?_iff]
  constructor
  · exact fun h hone => (h hone.1).not_onePackage hone
  · exact fun hone htwo => (hasPackages_iff_not_onePackage htwo).mpr hone

/-- The type of a project tells packages exactly if not all manifests share one. -/
theorem projectType_packages_iff (files : List SourceFile) (entryPoints : List Path) :
    (projectType files manifests entryPoints = .monorepo → HasPackages manifests) ↔
      ¬ OnePackage manifests := by
  rw [projectType_eq_monorepo_iff]
  constructor
  · intro h hone
    -- One package is no two services, so that nothing comes before the rule for a monorepo.
    have hfew : (services manifests entryPoints).length < 2 := by
      by_contra hmany
      exact (hasPackages_of_services (Nat.not_lt.mp hmany)).not_onePackage hone
    exact (h ⟨hfew, hone.1⟩).not_onePackage hone
  · rintro hone ⟨-, htwo⟩
    exact (hasPackages_iff_not_onePackage htwo).mpr hone

/-- Where a pattern of a monorepo is found, and where that is the shape of the project, there are
two packages below the root, unless all nested manifests belong to one package: the rules count
several manifests of it as several packages. The packages are those that the confidence counts. -/
theorem monorepo_has_packages_iff (root : Path) (files : List SourceFile)
    (manifests : List Manifest) :
    let s := ProjectStructure.ofFiles root files manifests
    (((Pattern.monorepo? s).isSome = true → HasPackages manifests) ↔ ¬ OnePackage manifests) ∧
    ((s.projectType = .monorepo → HasPackages manifests) ↔ ¬ OnePackage manifests) ∧
    (HasPackages manifests ↔ 2 ≤ (Pattern.packageDirs s.manifests).length) := by
  intro s
  have hperm : manifests.Perm s.manifests := (List.mergeSort_perm _ _).symm
  rw [hasPackages_perm hperm, onePackage_perm hperm]
  exact ⟨monorepo?_packages_iff s, projectType_packages_iff _ _, hasPackages_iff_packageDirs⟩

def twoManifests : List Manifest :=
  [⟨⟨"app/package.json"⟩, .node⟩, ⟨⟨"app/pyproject.toml"⟩, .python⟩]

theorem one_package_is_found :
    ¬ ∀ (root : Path) (files : List SourceFile) (manifests : List Manifest),
      let s := ProjectStructure.ofFiles root files manifests
      (Pattern.monorepo? s).isSome = true ∨ s.projectType = .monorepo →
        HasPackages manifests := by
  intro h
  have hone : OnePackage twoManifests := ⟨by decide +kernel, ⟨"app"⟩, by decide +kernel⟩
  let s := ProjectStructure.ofFiles ⟨"/repo"⟩ [.ofPath ⟨"app/main.py"⟩ .python 0] twoManifests
  have hperm : twoManifests.Perm s.manifests := (List.mergeSort_perm _ _).symm
  have hfound : (Pattern.monorepo? s).isSome = true → HasPackages twoManifests :=
    fun hsome => h _ _ _ (.inl hsome)
  rw [hasPackages_perm hperm, monorepo?_packages_iff, ← onePackage_perm hperm] at hfound
  exact hfound hone

end CodeAtlas
