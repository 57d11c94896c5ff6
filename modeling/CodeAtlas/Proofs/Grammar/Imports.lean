import CodeAtlas.Grammar.Basic
import Mathlib.Data.List.Basic
/-!
Imports as dependencies. A fact is stated by the dependencies of a tree exactly if it has a target
and something in the tree states it (`mem_keys_distinct`), so that an import target states an import
for each name that it stands for and that is not empty (`mem_keys_dependencies`).
-/
namespace CodeAtlas

namespace Dependency

/-- A fact is kept exactly if it has a target and was not met before. -/
theorem mem_keys_distinctFrom {fact : String × String × DependencyKind} (deps : List Dependency)
    (seen : List (String × String × DependencyKind)) :
    fact ∈ (distinctFrom seen deps).map key ↔
      fact ∉ seen ∧ ∃ d ∈ deps, d.target ≠ "" ∧ d.key = fact := by
  induction deps generalizing seen with
  | nil => simp [distinctFrom]
  | cons d rest ih =>
    rw [List.exists_mem_cons_iff]
    unfold distinctFrom
    split
    case isTrue hdropped =>
      rw [Bool.or_eq_true, String.isEmpty_iff, List.contains_iff_mem] at hdropped
      rw [ih seen]
      have hold : fact ∉ seen → ¬ (d.target ≠ "" ∧ d.key = fact) := by
        rintro hnew ⟨htarget, rfl⟩
        exact hdropped.elim htarget hnew
      constructor
      · exact fun ⟨hnew, hrest⟩ => ⟨hnew, .inr hrest⟩
      · exact fun ⟨hnew, hany⟩ => ⟨hnew, hany.resolve_left (hold hnew)⟩
    case isFalse hkept =>
      rw [Bool.or_eq_true, String.isEmpty_iff, List.contains_iff_mem, not_or] at hkept
      obtain ⟨htarget, hnew⟩ := hkept
      rw [List.map_cons, List.mem_cons, ih (d.key :: seen), List.mem_cons, not_or]
      constructor
      · rintro (rfl | ⟨⟨-, hseen⟩, hrest⟩)
        · exact ⟨hnew, .inl ⟨htarget, rfl⟩⟩
        · exact ⟨hseen, .inr hrest⟩
      · rintro ⟨hseen, hany⟩
        by_cases hd : fact = d.key
        · exact .inl hd
        · exact .inr ⟨⟨hd, hseen⟩, hany.resolve_left fun h => hd h.2.symm⟩

theorem mem_keys_distinct {fact : String × String × DependencyKind} {deps : List Dependency} :
    fact ∈ (distinct deps).map key ↔ ∃ d ∈ deps, d.target ≠ "" ∧ d.key = fact := by
  rw [distinct, mem_keys_distinctFrom]
  exact and_iff_right List.not_mem_nil

end Dependency

namespace Syntax

/-- The import targets of a tree are those that its nodes hold. -/
theorem mem_importTargets {rules : List ImportRule} {source : Source} {root n : Node} :
    n ∈ importTargets rules source root ↔
      ∃ m ∈ root.subtree, ∃ r ∈ rules, n ∈ r.targets source m := by
  rw [importTargets, List.mem_mergeSort, List.mem_flatMap]
  simp only [List.mem_flatMap]

end Syntax

namespace Grammar

open Syntax

variable {g : Grammar} {source : Source} {file : SourceFile} {root n : Node}

/-- A name that an import stands for is the target of a dependency unless it is empty. -/
theorem mem_keys_dependencies (hn : n ∈ importTargets g.imports source root) {name : String}
    (hname : name ∈ g.importNames source file n) :
    (file.moduleId, name, .imports) ∈ (g.dependencies source file root).map Dependency.key ↔
      name ≠ "" := by
  rw [dependencies, Dependency.mem_keys_distinct]
  constructor
  · rintro ⟨d, -, htarget, hkey⟩
    have hfact : d.target = name := congrArg (·.2.1) hkey
    rwa [← hfact]
  · intro hne
    refine ⟨dependencyFrom file none name .imports (source.span n), ?_, hne, rfl⟩
    refine List.mem_append_left _ (List.mem_flatMap.mpr ⟨n, hn, ?_⟩)
    exact List.mem_map_of_mem hname

/-- Some dependency of the tree states the import. -/
def Contributes (g : Grammar) (source : Source) (file : SourceFile) (root n : Node) : Prop :=
  ∃ x ∈ g.dependencies source file root, x.source = file.moduleId ∧ x.kind = .imports ∧
    x.target ∈ g.importNames source file n

/-- An import is lost exactly if all names that it stands for are empty. -/
theorem contributes_iff (hn : n ∈ importTargets g.imports source root) :
    g.Contributes source file root n ↔ ∃ name ∈ g.importNames source file n, name ≠ "" := by
  constructor
  · rintro ⟨x, hx, hsource, hkind, hname⟩
    refine ⟨x.target, hname, (mem_keys_dependencies hn hname).mp ?_⟩
    rw [← hsource, ← hkind]
    exact List.mem_map_of_mem hx
  · rintro ⟨name, hname, hne⟩
    obtain ⟨x, hx, hkey⟩ := List.mem_map.mp ((mem_keys_dependencies hn hname).mpr hne)
    obtain ⟨hsource, htarget, hkind⟩ : x.source = file.moduleId ∧ x.target = name ∧
        x.kind = .imports := by
      simpa [Dependency.key] using hkey
    exact ⟨x, hx, hsource, hkind, htarget ▸ hname⟩

end Grammar

end CodeAtlas
