import CodeAtlas.Graph.Cycles
import Mathlib.Logic.Relation
import Mathlib.Tactic.Common
/-!
Marking what can be reached in a directed graph. The marks that are added are closed under
successors, and each of them is reached from a node that was to be visited, so a search without
marks finds exactly what can be reached (`reached_iff`).
-/
namespace CodeAtlas.Cycles
open Relation

def Follows (next : Adjacency) (a b : Nat) : Prop :=
  b ∈ next.getD a []

/-- What marking does, from the nodes that are still to visit. -/
structure Marks (next : Adjacency) (before : Array Bool) (stack : List Nat)
    (after : Array Bool) : Prop where
  size : after.size = before.size
  kept : ∀ i : Nat, before[i]? = some true → after[i]? = some true
  start : ∀ v ∈ stack, v < before.size → after[v]? = some true
  closed : ∀ a b : Nat, after[a]? = some true → before[a]? ≠ some true → Follows next a b →
    b < before.size → after[b]? = some true
  sound : ∀ i : Nat, after[i]? = some true → before[i]? = some true ∨
    ∃ v ∈ stack, ReflTransGen (Follows next) v i

variable {next : Adjacency}

/-- A node that is visited for the first time is marked, and its successors are visited first. -/
theorem Marks.visit {before after : Array Bool} {v : Nat} {rest : List Nat}
    (hv : before[v]? = some false)
    (h : Marks next (before.setIfInBounds v true) (next.getD v [] ++ rest) after) :
    Marks next before (v :: rest) after := by
  have hlt : v < before.size := (Array.getElem?_eq_some_iff.mp hv).1
  have hset : ∀ i : Nat, (before.setIfInBounds v true)[i]? = some true ↔
      i = v ∨ before[i]? = some true := by
    intro i
    by_cases hi : i = v
    · subst hi
      simp [hlt]
    · simp [Ne.symm hi, hi]
  have hmarked : after[v]? = some true := h.kept v ((hset v).mpr (.inl rfl))
  have hsize : (before.setIfInBounds v true).size = before.size := Array.size_setIfInBounds
  refine ⟨?_, ?_, ?_, ?_, ?_⟩
  · rw [h.size, hsize]
  · intro i hi
    exact h.kept i ((hset i).mpr (.inr hi))
  · intro u hu hsmall
    rcases List.mem_cons.mp hu with rfl | hu
    · exact hmarked
    · exact h.start u (List.mem_append_right _ hu) (hsize ▸ hsmall)
  · intro a b ha hnew hab hb
    by_cases hav : a = v
    · subst hav
      exact h.start b (List.mem_append_left _ hab) (hsize ▸ hb)
    · have hnew' : (before.setIfInBounds v true)[a]? ≠ some true := by
        rw [ne_eq, hset]
        exact not_or.mpr ⟨hav, hnew⟩
      exact h.closed a b ha hnew' hab (hsize ▸ hb)
  · intro i hi
    rcases h.sound i hi with hold | ⟨u, hu, hreach⟩
    · rcases (hset i).mp hold with rfl | hold
      · exact .inr ⟨i, List.mem_cons_self, .refl⟩
      · exact .inl hold
    · rcases List.mem_append.mp hu with hu | hu
      · exact .inr ⟨v, List.mem_cons_self, .head hu hreach⟩
      · exact .inr ⟨u, List.mem_cons_of_mem v hu, hreach⟩

/-- A node that has a mark, or is none, needs no visit. -/
theorem Marks.skip {before after : Array Bool} {v : Nat} {rest : List Nat}
    (hv : before[v]? ≠ some false) (h : Marks next before rest after) :
    Marks next before (v :: rest) after := by
  refine ⟨h.size, h.kept, ?_, h.closed, ?_⟩
  · intro u hu hsmall
    rcases List.mem_cons.mp hu with rfl | hu
    · have hget := Array.getElem?_eq_getElem hsmall
      cases hb : before[u] with
      | true => exact h.kept u (by rw [hget, hb])
      | false => exact absurd (by rw [hget, hb]) hv
    · exact h.start u hu hsmall
  · intro i hi
    rcases h.sound i hi with hold | ⟨u, hu, hreach⟩
    · exact .inl hold
    · exact .inr ⟨u, List.mem_cons_of_mem v hu, hreach⟩

/-- Marking from a stack marks what can be reached from it along unmarked nodes. -/
theorem mark_marks (next : Adjacency) (before : Array Bool) (stack : List Nat) :
    Marks next before stack (mark next before stack) := by
  -- The cases are those of the search: nothing to visit, a first visit, a node to skip.
  induction before, stack using mark.induct next with
  | case1 before =>
    rw [mark]
    exact ⟨rfl, fun _ h => h, by simp, fun a b ha hnew => absurd ha hnew, fun _ h => .inl h⟩
  | case2 before v rest hv ih =>
    rw [mark, if_pos hv]
    exact ih.visit hv
  | case3 before v rest hv ih =>
    rw [mark, if_neg hv]
    exact ih.skip hv

/-- The marks of a node are what can be reached from it. -/
theorem reached_iff (hnext : ∀ a b, Follows next a b → b < next.size) {v : Nat}
    (hv : v < next.size) (u : Nat) :
    (reached next v).getD u false = true ↔ ReflTransGen (Follows next) v u := by
  have hmarks := mark_marks next (Array.replicate next.size false) [v]
  have hclear : ∀ i : Nat, (Array.replicate next.size false)[i]? ≠ some true := by
    intro i
    rw [Array.getElem?_replicate]
    split <;> simp
  have hsize : (Array.replicate next.size false).size = next.size := Array.size_replicate
  have hget : (reached next v).getD u false = true ↔ (reached next v)[u]? = some true := by
    rw [Array.getD_eq_getD_getElem?]
    cases (reached next v)[u]? <;> simp
  rw [hget]
  clear hget
  constructor
  · intro h
    rcases hmarks.sound u h with hold | ⟨w, hw, hreach⟩
    · exact absurd hold (hclear u)
    · rwa [List.mem_singleton.mp hw] at hreach
  · -- Along a walk each node is marked because the marks are closed under successors.
    intro h
    induction h with
    | refl => exact hmarks.start v (List.mem_singleton_self v) (by rwa [hsize])
    | @tail a b _ hab ih =>
      exact hmarks.closed a b ih (hclear a) hab (by rw [hsize]; exact hnext a b hab)

section Adjacency

theorem foldl_modify_size (edges : List (Nat × Nat)) (next : Adjacency) :
    (edges.foldl (fun next (a, b) => next.modify a (b :: ·)) next).size = next.size := by
  induction edges generalizing next with
  | nil => rfl
  | cons e edges ih => rw [List.foldl_cons, ih, Array.size_modify]

/-- The neighbours of a node are the ends of its edges. -/
theorem mem_foldl_modify (edges : List (Nat × Nat)) (next : Adjacency) (a b : Nat) :
    b ∈ (edges.foldl (fun next (a, b) => next.modify a (b :: ·)) next).getD a [] ↔
      b ∈ next.getD a [] ∨ a < next.size ∧ (a, b) ∈ edges := by
  induction edges generalizing next with
  | nil => simp
  | cons e edges ih =>
    obtain ⟨c, d⟩ := e
    rw [List.foldl_cons, ih, Array.size_modify, List.mem_cons, Prod.mk.injEq]
    have hstep : b ∈ (next.modify c (d :: ·)).getD a [] ↔
        b ∈ next.getD a [] ∨ a < next.size ∧ a = c ∧ b = d := by
      rw [Array.getD_eq_getD_getElem?, Array.getD_eq_getD_getElem?, Array.getElem?_modify]
      by_cases ha : a < next.size
      · by_cases hc : c = a
        · simp [ha, hc, or_comm]
        · simp [ha, hc, Ne.symm hc]
      · simp [ha]
    rw [hstep]
    tauto

theorem adjacency_size (size : Nat) (edges : List (Nat × Nat)) :
    (adjacency size edges).size = size := by
  rw [adjacency, foldl_modify_size, Array.size_replicate]

/-- The successors of a node are the ends of its edges. -/
theorem follows_adjacency (size : Nat) (edges : List (Nat × Nat)) (a b : Nat) :
    Follows (adjacency size edges) a b ↔ a < size ∧ (a, b) ∈ edges := by
  rw [Follows, adjacency, mem_foldl_modify, Array.size_replicate]
  have hclear : (Array.replicate size ([] : List Nat)).getD a [] = [] := by
    rw [Array.getD_eq_getD_getElem?, Array.getElem?_replicate]
    split <;> rfl
  rw [hclear]
  simp

end Adjacency

end CodeAtlas.Cycles
