import CodeAtlas.Proofs.Path.Below
import Mathlib.Data.List.TakeWhile
/-!
The parent of a path. Slashes and single dots at the end of a path lead nowhere, so the parent of a
path that leads down by names has all of its components but the last (`components_parent?`).
-/
namespace CodeAtlas.Path

/-- Slashes and single dots at the end of a path change nothing. -/
theorem componentsOf_trimBack (s : List Char) :
    componentsOf (trimBack s).reverse = componentsOf s.reverse := by
  fun_induction trimBack s with
  | case1 c rest ih =>
    rw [ih, List.reverse_cons (a := '/'), componentsOf_append_slash (by simp)]
    exact (List.append_nil _).symm
  | case2 rest ih =>
    rw [ih, List.reverse_cons (a := '.'), List.reverse_cons (a := '/'), List.append_assoc]
    by_cases hrest : rest.reverse = []
    · rw [hrest]
      rfl
    · change componentsOf (rest.reverse ++ '/' :: []) = componentsOf (rest.reverse ++ '/' :: ['.'])
      rw [componentsOf_append_slash hrest, componentsOf_append_slash hrest]
      rfl
  | case3 s => rfl

/-- What is left has no slash and no single dot at the end, unless it is a slash. -/
theorem trimBack_settled (s : List Char) :
    (∀ c rest, trimBack s ≠ '/' :: c :: rest) ∧ ∀ rest, trimBack s ≠ '.' :: '/' :: rest := by
  fun_induction trimBack s with
  | case1 c rest ih => exact ih
  | case2 rest ih => exact ih
  | case3 s hslash hdot => exact ⟨hslash, hdot⟩

/-- A text without slashes has at most one component. -/
theorem length_componentsOf_le {s : List Char} (hs : '/' ∉ s) : (componentsOf s).length ≤ 1 := by
  have hslash : ∀ tail, s ≠ '/' :: tail := by
    rintro tail rfl
    exact hs List.mem_cons_self
  rw [componentsOf_of_fields hslash (Text.fields_of_notMem hs), List.filterMap_nil, List.append_nil]
  unfold opening
  split
  · exact le_rfl
  · exact Option.length_toList_le

/-- What stands behind the last slash of a settled path is its last component. -/
theorem componentsOf_append_last {before last : List Char} (hbefore : before ≠ [])
    (hslash : '/' ∉ last) (hnil : last ≠ []) (hdot : last ≠ ['.']) :
    ∃ c, componentsOf (before ++ '/' :: last) = componentsOf before ++ [c] := by
  have hstep : ∃ c, Component.ofStep? last = some c := by
    unfold Component.ofStep?
    split
    · exact absurd rfl hnil
    · exact absurd rfl hdot
    · exact ⟨_, rfl⟩
    · exact ⟨_, rfl⟩
  obtain ⟨c, hc⟩ := hstep
  refine ⟨c, ?_⟩
  rw [componentsOf_append_slash hbefore, Text.fields_of_notMem hslash,
    List.filterMap_cons_some hc, List.filterMap_nil]

/-- The parent of a path that leads down by names has all names but the last. -/
theorem components_parent? {p : Path} {dirs : List String} {name : String}
    (h : p.components = (dirs ++ [name]).map .name) :
    ∃ q, p.parent? = some q ∧ q.components = dirs.map .name := by
  have hroot : ∀ cs, (dirs ++ [name]).map Component.name ≠ .root :: cs := by
    cases dirs <;> simp
  obtain ⟨hslash, hdot⟩ := trimBack_settled p.text.toList.reverse
  have htrim : componentsOf (trimBack p.text.toList.reverse).reverse =
      (dirs ++ [name]).map .name := by
    rw [componentsOf_trimBack, List.reverse_reverse]
    exact h
  unfold parent?
  generalize trimBack p.text.toList.reverse = t at hslash hdot htrim
  split
  · have hempty : componentsOf [].reverse = [] := rfl
    rw [hempty] at htrim
    simp at htrim
  · exact absurd htrim.symm (hroot [])
  · rename_i hnil hone
    refine ⟨_, rfl, ?_⟩
    unfold components
    rw [String.toList_ofList, componentsOf_trimBack]
    have hcut := List.takeWhile_append_dropWhile (p := (· != '/')) (l := t)
    have hlast : '/' ∉ t.takeWhile (· != '/') := by
      intro hmem
      have hne := List.mem_takeWhile_imp hmem
      simp at hne
    generalize t.takeWhile (· != '/') = last at hcut hlast
    cases hback : t.dropWhile (· != '/') with
    | nil =>
      rw [hback, List.append_nil] at hcut
      have hlength := length_componentsOf_le (s := t.reverse) (by rw [← hcut]; simpa using hlast)
      rw [htrim, List.length_map, List.length_append, List.length_singleton] at hlength
      have hdirs : dirs = [] := List.length_eq_zero_iff.mp (by omega)
      rw [hdirs]
      rfl
    | cons c before =>
      have hc : c = '/' := by
        have hhead := List.head?_dropWhile_not (· != '/') t
        rw [hback] at hhead
        simpa using hhead
      rw [hc] at hback ⊢
      rw [hback] at hcut
      have hreverse : t.reverse = before.reverse ++ '/' :: last.reverse := by
        rw [← hcut, List.reverse_append, List.reverse_cons, List.append_assoc,
          List.singleton_append]
      rw [hreverse] at htrim
      have hbefore : before.reverse ≠ [] := by
        intro hnone
        rw [hnone] at htrim
        exact hroot _ htrim.symm
      have hne : last.reverse ≠ [] := by
        intro hnone
        rw [List.reverse_eq_nil_iff.mp hnone] at hcut
        obtain ⟨d, rest, hrest⟩ :=
          List.exists_cons_of_ne_nil (mt List.reverse_eq_nil_iff.mpr hbefore)
        exact hslash d rest (by rw [← hcut, hrest]; rfl)
      have hdots : last.reverse ≠ ['.'] := by
        intro hone
        rw [List.reverse_eq_iff.mp hone] at hcut
        exact hdot before hcut.symm
      obtain ⟨d, hd⟩ := componentsOf_append_last hbefore (by simpa using hlast) hne hdots
      rw [hd, List.map_append, List.map_singleton] at htrim
      rw [List.reverse_cons, ← (List.append_inj' htrim rfl).1]
      exact (componentsOf_append_slash hbefore []).trans (List.append_nil _)

end CodeAtlas.Path
