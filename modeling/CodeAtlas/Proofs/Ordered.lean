import CodeAtlas.Ordered
import Mathlib.Data.List.Nodup
import Mathlib.Data.String.Basic
/-!
Sorted lists without repetitions. Building one takes nothing but elements of the given list
(`ofList_subset`), and something that counts as equal to each of them (`ofList_represents`); every
element is strictly before all that follow it (`ofList_strict`).
-/
namespace CodeAtlas.Ordered

variable {α : Type} {le : α → α → Bool}

theorem insert_ne_nil (x : α) (ys : List α) : insert le x ys ≠ [] := by
  cases ys with
  | nil => exact List.cons_ne_nil x []
  | cons y ys =>
    unfold insert
    split
    · split <;> exact List.cons_ne_nil _ _
    · exact List.cons_ne_nil _ _

/-- Inserting adds the element and nothing else. -/
theorem insert_subset (x : α) (ys : List α) : insert le x ys ⊆ x :: ys := by
  induction ys with
  | nil => exact List.Subset.refl [x]
  | cons y ys ih =>
    intro z hz
    unfold insert at hz
    split at hz
    · split at hz
      · exact List.mem_cons_of_mem x hz
      · exact hz
    · rcases List.mem_cons.mp hz with rfl | hz
      · exact List.mem_cons_of_mem x List.mem_cons_self
      · rcases List.mem_cons.mp (ih hz) with rfl | hz
        · exact List.mem_cons_self
        · exact List.mem_cons_of_mem x (List.mem_cons_of_mem y hz)

/-- Inserting loses nothing. -/
theorem subset_insert (x : α) (ys : List α) : ys ⊆ insert le x ys := by
  induction ys with
  | nil => exact List.nil_subset _
  | cons y ys ih =>
    unfold insert
    split
    · split
      · exact List.Subset.refl _
      · exact List.subset_cons_self x (y :: ys)
    · exact List.cons_subset_cons y ih

theorem foldl_insert_subset (xs found : List α) :
    xs.foldl (fun found x => insert le x found) found ⊆ found ++ xs := by
  induction xs generalizing found with
  | nil =>
    rw [List.append_nil]
    exact List.Subset.refl found
  | cons x xs ih =>
    intro z hz
    have hplace : z ∈ insert le x found ++ xs := ih (insert le x found) hz
    rcases List.mem_append.mp hplace with hz | hz
    · rcases List.mem_cons.mp (insert_subset x found hz) with rfl | hz
      · exact List.mem_append_right _ List.mem_cons_self
      · exact List.mem_append_left _ hz
    · exact List.mem_append_right _ (List.mem_cons_of_mem x hz)

theorem subset_foldl_insert (xs found : List α) :
    found ⊆ xs.foldl (fun found x => insert le x found) found := by
  induction xs generalizing found with
  | nil => exact List.Subset.refl found
  | cons x xs ih => exact List.Subset.trans (subset_insert x found) (ih (insert le x found))

theorem ofList_subset (xs : List α) : ofList le xs ⊆ xs :=
  foldl_insert_subset xs []

/-- The sorted list is empty only for the empty list. -/
theorem ofList_eq_nil_iff (xs : List α) : ofList le xs = [] ↔ xs = [] := by
  constructor
  · intro h
    cases xs with
    | nil => rfl
    | cons x xs =>
      have hkept : insert le x [] ⊆ ofList le (x :: xs) := subset_foldl_insert xs _
      rw [h] at hkept
      exact absurd (List.subset_nil.mp hkept) (insert_ne_nil x [])
  · rintro rfl
    rfl

section Total

variable (htotal : ∀ a b, le a b = true ∨ le b a = true)
include htotal

/-- After an insertion the list holds the element or one that counts as equal. -/
theorem insert_represents (x : α) (ys : List α) :
    ∃ y ∈ insert le x ys, le x y = true ∧ le y x = true := by
  have hrefl : le x x = true := or_self_iff.mp (htotal x x)
  induction ys with
  | nil => exact ⟨x, List.mem_cons_self, hrefl, hrefl⟩
  | cons y ys ih =>
    unfold insert
    split
    · rename_i hxy
      split
      · rename_i hyx
        exact ⟨y, List.mem_cons_self, hxy, hyx⟩
      · exact ⟨x, List.mem_cons_self, hrefl, hrefl⟩
    · obtain ⟨z, hz, heq⟩ := ih
      exact ⟨z, List.mem_cons_of_mem y hz, heq⟩

/-- What is left out counts as equal to something that is kept. -/
theorem ofList_represents {xs : List α} {x : α} (hx : x ∈ xs) :
    ∃ y ∈ ofList le xs, le x y = true ∧ le y x = true := by
  obtain ⟨before, after, rfl⟩ := List.append_of_mem hx
  obtain ⟨y, hy, heq⟩ := insert_represents htotal x (ofList le before)
  refine ⟨y, ?_, heq⟩
  rw [ofList, List.foldl_append, List.foldl_cons]
  exact subset_foldl_insert after _ hy

end Total

section Order

variable (htrans : ∀ a b c, le a b = true → le b c = true → le a c = true)
  (htotal : ∀ a b, le a b = true ∨ le b a = true)
include htrans htotal

/-- Inserting keeps a strictly sorted list so. -/
theorem insert_strict (x : α) {ys : List α}
    (h : ys.Pairwise fun a b => le a b = true ∧ le b a = false) :
    (insert le x ys).Pairwise fun a b => le a b = true ∧ le b a = false := by
  induction ys with
  | nil => exact List.pairwise_singleton _ _
  | cons y ys ih =>
    obtain ⟨hhead, htail⟩ := List.pairwise_cons.mp h
    unfold insert
    split
    · rename_i hxy
      split
      · exact h
      · rename_i hyx
        refine List.pairwise_cons.mpr ⟨?_, h⟩
        intro z hz
        rcases List.mem_cons.mp hz with rfl | hz
        · exact ⟨hxy, Bool.not_eq_true _ |>.mp hyx⟩
        · obtain ⟨hyz, hzy⟩ := hhead z hz
          refine ⟨htrans x y z hxy hyz, ?_⟩
          rw [← Bool.not_eq_true]
          intro hzx
          rw [htrans z x y hzx hxy] at hzy
          cases hzy
    · rename_i hxy
      refine List.pairwise_cons.mpr ⟨?_, ih htail⟩
      intro z hz
      rcases List.mem_cons.mp (insert_subset x ys hz) with rfl | hz
      · exact ⟨(htotal z y).resolve_left hxy, Bool.not_eq_true _ |>.mp hxy⟩
      · exact hhead z hz

/-- Each element is strictly before the next. -/
theorem ofList_strict (xs : List α) :
    (ofList le xs).Pairwise fun a b => le a b = true ∧ le b a = false := by
  apply List.foldlRecOn xs (fun found x => insert le x found) .nil
  intro found hfound x _
  exact insert_strict htrans htotal x hfound

theorem ofList_nodup (xs : List α) : (ofList le xs).Nodup := by
  refine (ofList_strict htrans htotal xs).imp ?_
  rintro a b ⟨hab, hba⟩ rfl
  rw [hab] at hba
  cases hba

/-- There are two in the sorted list exactly if two of the given ones differ. -/
theorem two_le_length_ofList_iff (xs : List α) :
    2 ≤ (ofList le xs).length ↔ ∃ x ∈ xs, ∃ y ∈ xs, le y x = false := by
  constructor
  · intro htwo
    have hsubset : ofList le xs ⊆ xs := ofList_subset xs
    have hstrict := ofList_strict htrans htotal xs
    generalize ofList le xs = kept at htwo hsubset hstrict
    match kept with
    | x :: y :: rest =>
      have hbefore := (List.pairwise_cons.mp hstrict).1 y List.mem_cons_self
      exact ⟨x, hsubset (by simp), y, hsubset (by simp), hbefore.2⟩
  · rintro ⟨x, hx, y, hy, hyx⟩
    obtain ⟨x', hx', -, hxx⟩ := ofList_represents htotal hx
    obtain ⟨y', hy', hyy, -⟩ := ofList_represents htotal hy
    by_contra hfew
    have hsame : x' = y' := by
      generalize ofList le xs = kept at hfew hx' hy'
      match kept with
      | [] => exact absurd hx' List.not_mem_nil
      | [z] => rw [List.mem_singleton.mp hx', List.mem_singleton.mp hy']
      | _ :: _ :: _ => exact absurd (by simp) hfew
    rw [hsame] at hxx
    rw [htrans y y' x hyy hxx] at hyx
    cases hyx

end Order

theorem strings_subset (xs : List String) : strings xs ⊆ xs :=
  ofList_subset xs

theorem strings_nodup (xs : List String) : (strings xs).Nodup := by
  apply ofList_nodup
  · intro a b c hab hbc
    simp only [Bool.not_eq_true', decide_eq_false_iff_not, not_lt] at hab hbc ⊢
    exact hab.trans hbc
  · intro a b
    simp only [Bool.not_eq_true', decide_eq_false_iff_not, not_lt]
    exact le_total a b

end CodeAtlas.Ordered
