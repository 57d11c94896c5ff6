import Mathlib.Data.List.Nodup
import Mathlib.Data.List.Perm.Basic
import Mathlib.Tactic.Common
/-!
Rankings: lists in decreasing order of a figure, in which elements of equal figure keep their order.
A list has exactly one (`ranks_rankedBy`, `Ranks.unique`). The ranking of two lists together is the
merge of their rankings, so the first places of the whole are decided by the first places of the
parts (`take_rankedBy_append`).
-/
namespace CodeAtlas

variable {α : Type} {figure : α → UInt32}

def rankedBy (figure : α → UInt32) (xs : List α) : List α :=
  xs.mergeSort fun a b => figure b ≤ figure a

/-- A list holds the elements of another one by decreasing figure, those of one figure in the order
that they had. -/
structure Ranks (figure : α → UInt32) (xs ranking : List α) : Prop where
  decreasing : ranking.Pairwise fun a b => figure b ≤ figure a
  stable : ∀ n, ranking.filter (fun x => figure x == n) = xs.filter fun x => figure x == n

section Order

variable (figure)

theorem rankedBy_trans (a b c : α) (hab : decide (figure b ≤ figure a) = true)
    (hbc : decide (figure c ≤ figure b) = true) : decide (figure c ≤ figure a) = true := by
  rw [decide_eq_true_iff] at hab hbc ⊢
  exact UInt32.le_trans hbc hab

theorem rankedBy_total (a b : α) :
    (decide (figure b ≤ figure a) || decide (figure a ≤ figure b)) = true := by
  rw [Bool.or_eq_true, decide_eq_true_iff, decide_eq_true_iff]
  exact UInt32.le_total _ _

end Order

theorem rankedBy_perm (xs : List α) : (rankedBy figure xs).Perm xs :=
  List.mergeSort_perm xs _

/-- Stable sorting ranks by the figure, and equal ones by their place. -/
theorem ranks_rankedBy (xs : List α) : Ranks figure xs (rankedBy figure xs) := by
  refine ⟨?_, fun n => ?_⟩
  · have hsorted := List.pairwise_mergeSort (rankedBy_trans figure) (rankedBy_total figure) xs
    exact hsorted.imp of_decide_eq_true
  · have hequal : (xs.filter fun x => figure x == n).Pairwise
        fun a b => decide (figure b ≤ figure a) = true := by
      refine List.pairwise_of_forall_mem_list fun a ha b hb => ?_
      rw [decide_eq_true_iff, beq_iff_eq.mp (List.mem_filter.mp ha).2,
        beq_iff_eq.mp (List.mem_filter.mp hb).2]
      exact UInt32.le_refl n
    have hkept := List.sublist_mergeSort (rankedBy_trans figure) (rankedBy_total figure) hequal
      List.filter_sublist
    have hsub := hkept.filter fun x => figure x == n
    rw [List.filter_filter] at hsub
    simp only [Bool.and_self] at hsub
    refine (hsub.eq_of_length ?_).symm
    exact ((rankedBy_perm xs).filter _).length_eq.symm

namespace Ranks

variable {xs ys ranking other : List α}

theorem mem_iff (h : Ranks figure xs ranking) (x : α) : x ∈ ranking ↔ x ∈ xs := by
  have hclass (zs : List α) : x ∈ zs ↔ x ∈ zs.filter fun y => figure y == figure x := by
    rw [List.mem_filter, beq_iff_eq, and_iff_left rfl]
  rw [hclass ranking, h.stable, ← hclass]

theorem tail {x : α} {rest : List α} (h : Ranks figure (x :: xs) (x :: rest)) :
    Ranks figure xs rest := by
  refine ⟨(List.pairwise_cons.mp h.decreasing).2, fun n => ?_⟩
  have hstable := h.stable n
  rw [List.filter_cons, List.filter_cons] at hstable
  split at hstable
  · exact (List.cons.inj hstable).2
  · exact hstable

/-- There is only one ranking. -/
theorem unique (h : Ranks figure xs ranking) (h' : Ranks figure xs other) : ranking = other := by
  have hsame : Ranks figure other ranking :=
    ⟨h.decreasing, fun n => (h.stable n).trans (h'.stable n).symm⟩
  have hdecreasing := h'.decreasing
  clear h h'
  induction ranking generalizing other with
  | nil =>
    cases other with
    | nil => rfl
    | cons b rest => exact absurd ((hsame.mem_iff b).mpr List.mem_cons_self) List.not_mem_nil
  | cons a ranking ih =>
    cases other with
    | nil => exact absurd ((hsame.mem_iff a).mp List.mem_cons_self) List.not_mem_nil
    | cons b rest =>
      -- Both first elements have the greatest figure, so they are the first of their class.
      have hab : figure a ≤ figure b := by
        rcases List.mem_cons.mp ((hsame.mem_iff a).mp List.mem_cons_self) with rfl | hmem
        · exact UInt32.le_refl _
        · exact (List.pairwise_cons.mp hdecreasing).1 a hmem
      have hba : figure b ≤ figure a := by
        rcases List.mem_cons.mp ((hsame.mem_iff b).mpr List.mem_cons_self) with rfl | hmem
        · exact UInt32.le_refl _
        · exact (List.pairwise_cons.mp hsame.decreasing).1 b hmem
      have hclass := hsame.stable (figure a)
      rw [List.filter_cons, if_pos (beq_self_eq_true (figure a)), List.filter_cons,
        if_pos (beq_iff_eq.mpr (UInt32.le_antisymm hba hab))] at hclass
      obtain ⟨rfl, -⟩ := List.cons.inj hclass
      rw [ih hsame.tail (List.pairwise_cons.mp hdecreasing).2]

theorem eq_rankedBy (h : Ranks figure xs ranking) : ranking = rankedBy figure xs :=
  h.unique (ranks_rankedBy xs)

/-- Merging keeps each class: of equals those of the first list come first. -/
theorem filter_merge (hx : xs.Pairwise fun a b => figure b ≤ figure a) (n : UInt32) :
    (xs.merge ys fun a b => figure b ≤ figure a).filter (fun x => figure x == n) =
      (xs.filter fun x => figure x == n) ++ ys.filter fun x => figure x == n := by
  induction xs generalizing ys with
  | nil => simp
  | cons x xs ihx =>
    induction ys with
    | nil => simp
    | cons y ys ihy =>
      obtain ⟨hhead, htail⟩ := List.pairwise_cons.mp hx
      rw [List.cons_merge_cons]
      split
      · rw [List.filter_cons, ihx htail, List.filter_cons (x := x)]
        split <;> rfl
      · rename_i hlt
        rw [decide_eq_true_iff, UInt32.not_le] at hlt
        rw [List.filter_cons, ihy, List.filter_cons (x := y)]
        split
        · rename_i hy
          have hnone : (x :: xs).filter (fun x => figure x == n) = [] := by
            rw [List.filter_eq_nil_iff]
            intro z hz hzn
            have hzx : figure z ≤ figure x := by
              rcases List.mem_cons.mp hz with rfl | hz
              · exact UInt32.le_refl _
              · exact hhead z hz
            rw [beq_iff_eq.mp hzn, ← beq_iff_eq.mp hy] at hzx
            exact absurd hlt (UInt32.not_lt.mpr hzx)
          rw [hnone]
          rfl
        · rfl

theorem merge (hx : Ranks figure xs ranking) (hy : Ranks figure ys other) :
    Ranks figure (xs ++ ys) (ranking.merge other fun a b => figure b ≤ figure a) := by
  refine ⟨?_, fun n => ?_⟩
  · have hmerged := List.pairwise_merge (rankedBy_trans figure) (rankedBy_total figure) ranking
      other (hx.decreasing.imp decide_eq_true) (hy.decreasing.imp decide_eq_true)
    exact hmerged.imp of_decide_eq_true
  · rw [filter_merge hx.decreasing, hx.stable, hy.stable, List.filter_append]

/-- What relates the elements in their first order still relates those of one figure. -/
theorem pairwise {R : α → α → Prop} (h : Ranks figure xs ranking) (hxs : xs.Pairwise R) :
    ranking.Pairwise fun a b => figure b < figure a ∨ figure a = figure b ∧ R a b := by
  rw [List.pairwise_iff_forall_sublist]
  intro a b hab
  have hle : figure b ≤ figure a := List.pairwise_iff_forall_sublist.mp h.decreasing hab
  by_cases hlt : figure b < figure a
  · exact .inl hlt
  · have heq : figure a = figure b := UInt32.le_antisymm (UInt32.not_lt.mp hlt) hle
    have hclass : (ranking.filter fun x => figure x == figure a).Pairwise R := by
      rw [h.stable]
      exact hxs.filter _
    rw [List.pairwise_filter] at hclass
    exact .inr ⟨heq, List.pairwise_iff_forall_sublist.mp hclass hab (beq_self_eq_true _)
      (beq_iff_eq.mpr heq.symm)⟩

end Ranks

/-- The first elements of a merge come from the first elements of its parts. -/
theorem take_merge (le : α → α → Bool) (n : Nat) (xs ys : List α) :
    (xs.merge ys le).take n = ((xs.take n).merge (ys.take n) le).take n := by
  induction n generalizing xs ys with
  | zero => rfl
  | succ n ih =>
    have hshort (z : α) (zs : List α) : (z :: zs.take n).take n = (z :: zs).take n := by
      rw [← List.take_succ_cons, List.take_take, Nat.min_eq_left (Nat.le_succ n)]
    cases xs with
    | nil => simp [List.take_take]
    | cons x xs =>
      cases ys with
      | nil => simp [List.take_take]
      | cons y ys =>
        rw [List.take_succ_cons, List.take_succ_cons, List.cons_merge_cons, List.cons_merge_cons]
        split
        · rw [List.take_succ_cons, List.take_succ_cons, List.cons_inj_right]
          calc (xs.merge (y :: ys) le).take n
              = ((xs.take n).merge ((y :: ys).take n) le).take n := ih _ _
            _ = (((xs.take n).take n).merge ((y :: ys.take n).take n) le).take n := by
                rw [List.take_take, Nat.min_self, hshort]
            _ = ((xs.take n).merge (y :: ys.take n) le).take n := (ih _ _).symm
        · rw [List.take_succ_cons, List.take_succ_cons, List.cons_inj_right]
          calc ((x :: xs).merge ys le).take n
              = (((x :: xs).take n).merge (ys.take n) le).take n := ih _ _
            _ = (((x :: xs.take n).take n).merge ((ys.take n).take n) le).take n := by
                rw [List.take_take, Nat.min_self, hshort]
            _ = ((x :: xs.take n).merge (ys.take n) le).take n := (ih _ _).symm

/-- The first places of a whole are decided among the first places of its parts. -/
theorem take_rankedBy_append (n : Nat) (xs ys : List α) :
    (rankedBy figure (xs ++ ys)).take n =
      (rankedBy figure ((rankedBy figure xs).take n ++ (rankedBy figure ys).take n)).take n := by
  have hplaces (zs : List α) : Ranks figure ((rankedBy figure zs).take n)
      ((rankedBy figure zs).take n) :=
    ⟨(ranks_rankedBy zs).decreasing.sublist (List.take_sublist _ _), fun _ => rfl⟩
  rw [← ((ranks_rankedBy xs).merge (ranks_rankedBy ys)).eq_rankedBy,
    ← ((hplaces xs).merge (hplaces ys)).eq_rankedBy, take_merge]

end CodeAtlas
