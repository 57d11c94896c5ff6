import CodeAtlas.Project.Structure
import CodeAtlas.Proofs.Path.Order
/-!
Looking files up in a project. Its files are in the strict order of their paths, by which the search
halves them, so a file is found by the components of its path; and the order in which files and
manifests were given leaves no trace (`files_in_any_order`).
-/
namespace CodeAtlas

namespace ProjectStructure

variable {files : List SourceFile}

/-- In strict order a file comes after another exactly if its position does. -/
theorem compare_gt_iff (hsorted : files.Pairwise fun a b => a.path.compare b.path = .lt)
    {i j : Nat} {f g : SourceFile} (hf : files[i]? = some f) (hg : files[j]? = some g) :
    g.path.compare f.path = .gt ↔ i < j := by
  obtain ⟨hi, rfl⟩ := List.getElem?_eq_some_iff.mp hf
  obtain ⟨hj, rfl⟩ := List.getElem?_eq_some_iff.mp hg
  rw [List.pairwise_iff_getElem] at hsorted
  constructor
  · intro hgt
    rcases Nat.lt_trichotomy i j with h | rfl | h
    · exact h
    · rw [Path.compare_of_components rfl] at hgt
      cases hgt
    · rw [hsorted j i hj hi h] at hgt
      cases hgt
  · exact fun h => Path.compare_eq_gt_iff.mpr (hsorted i j hi hj h)

/-- The search ends at the last position of its range that is not after the path. -/
theorem search_eq {path : Path} {i base size : Nat} (hbase : base ≤ i) (hi : i < base + size)
    (hsize : base + size ≤ files.length)
    (hafter : ∀ j f, files[j]? = some f → (f.path.compare path = .gt ↔ i < j)) :
    search files path base size = i := by
  fun_induction search files path base size with
  | case1 base size hone => omega
  | case2 base size hmore half after ih =>
    have hhalf : half = size / 2 := rfl
    have hmid : base + half < files.length := by omega
    have hleft : after = true ↔ i < base + half := by
      rw [← hafter _ _ (List.getElem?_eq_getElem hmid)]
      simp only [after, List.getElem?_eq_getElem hmid, Option.all_some, beq_iff_eq]
    -- The position stays in the half that is searched further.
    by_cases hi' : i < base + half
    · simp only [hleft.mpr hi', ↓reduceDIte] at ih ⊢
      exact ih hbase (by omega) (by omega)
    · have hright : after = false := Bool.eq_false_iff.mpr (mt hleft.mp hi')
      simp only [hright, Bool.false_eq_true, ↓reduceDIte] at ih ⊢
      exact ih (by omega) (by omega) (by omega)

/-- Among files in strict order the one with the components of the path is found. -/
theorem file?_eq_some_iff {s : ProjectStructure}
    (hsorted : s.files.Pairwise fun a b => a.path.compare b.path = .lt) {path : Path}
    {f : SourceFile} :
    s.file? path = some f ↔ f ∈ s.files ∧ f.path.components = path.components := by
  have hsame (g : SourceFile) :
      g.path.same path = true ↔ g.path.components = path.components := beq_iff_eq
  unfold file?
  rw [Option.filter_eq_some_iff, hsame]
  refine and_congr_left fun hpath => ⟨List.mem_of_getElem?, fun hmem => ?_⟩
  obtain ⟨i, hi⟩ := List.mem_iff_getElem?.mp hmem
  have hlt : i < s.files.length := (List.getElem?_eq_some_iff.mp hi).1
  have hafter : ∀ j g, s.files[j]? = some g → (g.path.compare path = .gt ↔ i < j) := by
    intro j g hg
    rw [← Path.compare_congr hpath]
    exact compare_gt_iff hsorted hi hg
  rw [search_eq (Nat.zero_le i) (by omega) (by omega) hafter, hi]

/-- A project is the same in whatever order its files and its manifests are given, as long as their
paths have different components, and it finds a given file exactly by the components of its path. -/
theorem files_in_any_order {root : Path} {files files' : List SourceFile}
    {manifests manifests' : List Manifest}
    (hfiles : (files.map fun f => f.path.components).Nodup)
    (hmanifests : (manifests.map fun m => m.path.components).Nodup)
    (hperm : files.Perm files') (hperm' : manifests.Perm manifests') :
    ofFiles root files' manifests' = ofFiles root files manifests ∧
      ∀ path f, (ofFiles root files manifests).file? path = some f ↔
        f ∈ files ∧ f.path.components = path.components := by
  constructor
  · unfold ofFiles
    rw [Path.mergeSort_eq_of_perm SourceFile.path hfiles hperm,
      Path.mergeSort_eq_of_perm Manifest.path hmanifests hperm']
  · intro path f
    have hsorted := Path.pairwise_lt_mergeSort SourceFile.path hfiles
    have hmem : f ∈ (ofFiles root files manifests).files ↔ f ∈ files := List.mem_mergeSort
    rw [file?_eq_some_iff hsorted, hmem]

/-- Two files whose paths and texts are in different orders. -/
theorem files_in_any_order_hyphen :
    let inner := SourceFile.ofPath ⟨"a/b.py"⟩ .python 1
    let beside := SourceFile.ofPath ⟨"a-b.py"⟩ .python 2
    let project := ofFiles ⟨"."⟩ [inner, beside] [⟨⟨"a/setup.py"⟩, .python⟩]
    beside.path.text < inner.path.text ∧ inner.path.compare beside.path = .lt ∧
      ofFiles ⟨"."⟩ [beside, inner] [⟨⟨"a/setup.py"⟩, .python⟩] = project ∧
      project.file? ⟨"a//b.py"⟩ = some inner ∧ project.file? ⟨"b.py"⟩ = none := by
  intro inner beside project
  obtain ⟨horder, hfound⟩ := @files_in_any_order ⟨"."⟩ [inner, beside] [beside, inner]
    [⟨⟨"a/setup.py"⟩, .python⟩] [⟨⟨"a/setup.py"⟩, .python⟩] (by decide +kernel) (by decide +kernel)
    (List.Perm.swap _ _ _) (List.Perm.refl _)
  have hinner : inner.path.components = (⟨"a//b.py"⟩ : Path).components := by decide +kernel
  have hneither : ∀ f ∈ [inner, beside], f.path.components ≠ (⟨"b.py"⟩ : Path).components := by
    decide +kernel
  refine ⟨by decide +kernel, by decide +kernel, horder,
    (hfound _ _).mpr ⟨List.mem_cons_self, hinner⟩, ?_⟩
  rw [Option.eq_none_iff_forall_ne_some]
  intro f hf
  obtain ⟨hmem, hpath⟩ := (hfound _ _).mp hf
  exact hneither f hmem hpath

end ProjectStructure

end CodeAtlas
