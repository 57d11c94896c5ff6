import CodeAtlas.Path
import Mathlib.Data.List.Nodup
/-!
The order of paths. It is the lexicographic order of their components, so that sorting by it puts
paths that lead to different places in strict order (`pairwise_lt_mergeSort`), whatever their order
was before (`mergeSort_eq_of_perm`).
-/
namespace CodeAtlas

namespace Component

theorem compare_eq : Component.compare = compareLex (compareOn rank) (compareOn text) :=
  rfl

instance : Std.TransCmp Component.compare :=
  inferInstanceAs (Std.TransCmp (compareLex (compareOn rank) (compareOn text)))

theorem eq_of_rank_text {a b : Component} (hrank : a.rank = b.rank) (htext : a.text = b.text) :
    a = b := by
  cases a <;> cases b <;> simp_all [rank, text]

instance : Std.LawfulEqCmp Component.compare where
  eq_of_compare {a b} h := by
    obtain ⟨hrank, htext⟩ := Ordering.then_eq_eq.mp h
    exact eq_of_rank_text (Std.LawfulEqCmp.eq_of_compare hrank)
      (Std.LawfulEqCmp.eq_of_compare htext)

end Component

namespace Path

theorem compareComponents_eq : compareComponents = List.compareLex Component.compare := by
  funext as bs
  induction as generalizing bs with
  | nil => cases bs <;> rfl
  | cons a as ih =>
    cases bs with
    | nil => rfl
    | cons b bs => rw [compareComponents, List.compareLex_cons_cons, ih]

theorem compare_eq (p q : Path) :
    p.compare q = List.compareLex Component.compare p.components q.components := by
  rw [compare, compareComponents_eq]

theorem compare_of_components {p q : Path} (h : p.components = q.components) :
    p.compare q = .eq := by
  rw [compare_eq, h]
  exact Std.ReflCmp.compare_self

theorem compare_congr {p q r : Path} (h : q.components = r.components) :
    p.compare q = p.compare r := by
  unfold compare
  rw [h]

theorem compare_eq_gt_iff {p q : Path} : p.compare q = .gt ↔ q.compare p = .lt := by
  rw [compare_eq, compare_eq]
  exact Std.OrientedCmp.gt_iff_lt

theorem le_trans {p q r : Path} (hpq : p.le q = true) (hqr : q.le r = true) : p.le r = true := by
  unfold le at hpq hqr ⊢
  rw [compare_eq] at hpq hqr ⊢
  exact Std.TransCmp.isLE_trans hpq hqr

theorem le_total (p q : Path) : (p.le q || q.le p) = true := by
  have hswap : List.compareLex Component.compare q.components p.components =
      (List.compareLex Component.compare p.components q.components).swap :=
    Std.OrientedCmp.eq_swap
  unfold le
  rw [compare_eq, compare_eq, hswap]
  cases List.compareLex Component.compare p.components q.components <;> rfl

/-- Paths with different components are in strict order one way or the other. -/
theorem compare_eq_lt {p q : Path} (hle : p.le q = true) (hne : p.components ≠ q.components) :
    p.compare q = .lt := by
  unfold le at hle
  cases h : p.compare q with
  | lt => rfl
  | eq =>
    rw [compare_eq] at h
    exact absurd (Std.LawfulEqCmp.eq_of_compare h) hne
  | gt =>
    rw [h] at hle
    cases hle

theorem not_le_of_compare_lt {p q : Path} (h : p.compare q = .lt) : q.le p = false := by
  rw [le, compare_eq_gt_iff.mpr h]
  rfl

/-- Sorting by paths with different components orders strictly. -/
theorem pairwise_lt_mergeSort {α : Type} (path : α → Path) {xs : List α}
    (h : (xs.map fun x => (path x).components).Nodup) :
    (xs.mergeSort fun a b => (path a).le (path b)).Pairwise
      fun a b => (path a).compare (path b) = .lt := by
  have hsorted : (xs.mergeSort fun a b => (path a).le (path b)).Pairwise
      fun a b => (path a).le (path b) = true := by
    apply List.pairwise_mergeSort
    · intro a b c hab hbc
      exact Path.le_trans hab hbc
    · intro a b
      exact Path.le_total (path a) (path b)
  have hdistinct : (xs.mergeSort fun a b => (path a).le (path b)).Pairwise
      fun a b => (path a).components ≠ (path b).components := by
    rw [List.nodup_iff_pairwise_ne, List.pairwise_map] at h
    exact ((List.mergeSort_perm xs _).pairwise_iff fun hne => hne.symm).mpr h
  exact (hsorted.and hdistinct).imp fun h => compare_eq_lt h.1 h.2

/-- Sorting by paths with different components forgets the order before. -/
theorem mergeSort_eq_of_perm {α : Type} (path : α → Path) {xs ys : List α}
    (h : (xs.map fun x => (path x).components).Nodup) (hperm : xs.Perm ys) :
    (ys.mergeSort fun a b => (path a).le (path b)) =
      xs.mergeSort fun a b => (path a).le (path b) := by
  have hys : (ys.map fun x => (path x).components).Nodup :=
    (hperm.map fun x => (path x).components).nodup_iff.mp h
  have hsame := (List.mergeSort_perm ys fun a b => (path a).le (path b)).trans
    (hperm.symm.trans (List.mergeSort_perm xs fun a b => (path a).le (path b)).symm)
  refine List.Perm.eq_of_pairwise ?_ (pairwise_lt_mergeSort path hys)
    (pairwise_lt_mergeSort path h) hsame
  intro a b _ _ hab hba
  rw [← compare_eq_gt_iff, hab] at hba
  cases hba

end Path

end CodeAtlas
