import CodeAtlas.Text.Cut
import Mathlib.Data.List.Basic
/-!
Cutting a text at a separator and joining the parts again are inverse to each other. Names are
therefore lists of parts: two names are equal exactly if their parts are.
-/
namespace CodeAtlas.Text

theorem fields_ne_nil (sep : Char) (s : List Char) : fields sep s ≠ [] :=
  fieldsBy_ne_nil _ s

theorem fields_cons (sep c : Char) (s : List Char) :
    fields sep (c :: s) = if c = sep then [] :: fields sep s
      else (fields sep s).modifyHead (c :: ·) := by
  have hne := fields_ne_nil sep s
  unfold fields at hne ⊢
  rw [fieldsBy]
  by_cases hc : c = sep
  · simp [hc]
  · obtain ⟨part, parts, hs⟩ := List.exists_cons_of_ne_nil hne
    simp [hc, hs]

/-- The fields of a text are its pieces between the separators. -/
theorem fields_eq_splitOn (sep : Char) (s : List Char) : fields sep s = s.splitOn sep := by
  induction s with
  | nil => rfl
  | cons c s ih =>
    rw [fields_cons, List.splitOn_cons_eq_if_modifyHead, ih]
    by_cases hc : c = sep <;> simp [hc]

theorem fields_intercalate (sep : Char) (parts : List (List Char)) (hne : parts ≠ [])
    (h : ∀ part ∈ parts, sep ∉ part) : fields sep ([sep].intercalate parts) = parts := by
  rw [fields_eq_splitOn]
  exact List.splitOn_intercalate sep h hne

/-- No field holds the separator. -/
theorem sep_notMem_of_mem_fields {sep : Char} {s part : List Char} (h : part ∈ fields sep s) :
    sep ∉ part := by
  induction s generalizing part with
  | nil =>
    have hp : part = [] := by simpa [fields, fieldsBy] using h
    simp [hp]
  | cons c s ih =>
    rw [fields_cons] at h
    by_cases hc : c = sep
    · rw [if_pos hc] at h
      rcases List.mem_cons.mp h with rfl | h
      · simp
      · exact ih h
    · rw [if_neg hc] at h
      obtain ⟨first, rest, hf⟩ := List.exists_cons_of_ne_nil (fields_ne_nil sep s)
      rw [hf, List.modifyHead_cons] at h
      rcases List.mem_cons.mp h with rfl | h
      · have hfirst : sep ∉ first := ih (by simp [hf])
        simp [Ne.symm hc, hfirst]
      · exact ih (by simp [hf, h])

theorem fields_of_notMem {sep : Char} {s : List Char} (h : sep ∉ s) : fields sep s = [s] := by
  have hf := fields_intercalate sep [s] (by simp) (by simpa using h)
  rwa [List.intercalate_singleton] at hf

/-- A separator ends the fields before it and begins those behind. -/
theorem fields_append_cons (sep : Char) (s t : List Char) :
    fields sep (s ++ sep :: t) = fields sep s ++ fields sep t := by
  induction s with
  | nil => rw [List.nil_append, fields_cons, if_pos rfl]; rfl
  | cons c s ih =>
    rw [List.cons_append, fields_cons, fields_cons, ih]
    by_cases hc : c = sep
    · rw [if_pos hc, if_pos hc, List.cons_append]
    · obtain ⟨part, parts, hf⟩ := List.exists_cons_of_ne_nil (fields_ne_nil sep s)
      rw [if_neg hc, if_neg hc, hf, List.cons_append, List.modifyHead_cons, List.modifyHead_cons,
        List.cons_append]

/-- What is no separator lies in some field. -/
theorem exists_mem_fields {sep c : Char} {s : List Char} (hc : c ∈ s) (hne : c ≠ sep) :
    ∃ part ∈ fields sep s, c ∈ part := by
  induction s with
  | nil => simp at hc
  | cons x s ih =>
    rw [fields_cons]
    by_cases hx : x = sep
    · obtain ⟨part, hpart, hmem⟩ := ih ((List.mem_cons.mp hc).resolve_left (hx ▸ hne))
      exact ⟨part, by rw [if_pos hx]; exact List.mem_cons_of_mem _ hpart, hmem⟩
    · obtain ⟨first, rest, hf⟩ := List.exists_cons_of_ne_nil (fields_ne_nil sep s)
      rw [if_neg hx, hf, List.modifyHead_cons]
      rcases List.mem_cons.mp hc with rfl | hc
      · exact ⟨c :: first, List.mem_cons_self, List.mem_cons_self⟩
      · obtain ⟨part, hpart, hmem⟩ := ih hc
        rw [hf] at hpart
        rcases List.mem_cons.mp hpart with rfl | hpart
        · exact ⟨x :: part, List.mem_cons_self, List.mem_cons_of_mem x hmem⟩
        · exact ⟨part, List.mem_cons_of_mem _ hpart, hmem⟩

/-- A text either has no separator or is cut at the last one. -/
theorem notMem_or_eq_append_last (sep : Char) (s : List Char) :
    sep ∉ s ∨ ∃ front back, s = front ++ sep :: back ∧ sep ∉ back := by
  by_cases h : sep ∈ s
  · obtain ⟨back, front, hs, hback⟩ := List.eq_append_cons_of_mem (List.mem_reverse.mpr h)
    refine .inr ⟨front.reverse, back.reverse, ?_, by simpa using hback⟩
    have hrev := congrArg List.reverse hs
    simpa using hrev
  · exact .inl h

theorem dotParts_ne_nil (s : String) : dotParts s ≠ [] := by
  simpa [dotParts] using fields_ne_nil '.' s.toList

theorem dotParts_ofList (s : List Char) :
    dotParts (String.ofList s) = (fields '.' s).map String.ofList := by
  rw [dotParts, String.toList_ofList]

theorem dotParts_ofList_append (s t : List Char) : dotParts (String.ofList (s ++ '.' :: t)) =
    dotParts (String.ofList s) ++ dotParts (String.ofList t) := by
  rw [dotParts_ofList, dotParts_ofList, dotParts_ofList, fields_append_cons, List.map_append]

/-- The parts of a name joined by dots are the name. -/
theorem dotJoin_dotParts (s : String) : dotJoin (dotParts s) = s := by
  apply String.ext
  have hd : ".".toList = ['.'] := rfl
  rw [dotJoin, String.toList_intercalate, dotParts, List.map_map, hd]
  have hid : String.toList ∘ String.ofList = id := by
    funext l
    simp
  rw [hid, List.map_id, fields_eq_splitOn]
  exact List.intercalate_splitOn '.'

theorem dot_notMem_of_mem_dotParts {s part : String} (h : part ∈ dotParts s) :
    '.' ∉ part.toList := by
  obtain ⟨cs, hcs, rfl⟩ := List.mem_map.mp h
  simpa using sep_notMem_of_mem_fields hcs

/-- Parts without dots are the parts of the name that they make. -/
theorem dotParts_dotJoin {parts : List String} (hne : parts ≠ [])
    (h : ∀ part ∈ parts, '.' ∉ part.toList) : dotParts (dotJoin parts) = parts := by
  have hd : ".".toList = ['.'] := rfl
  have hf := fields_intercalate '.' (parts.map String.toList) (by simpa using hne)
    (by simpa using h)
  rw [dotParts, dotJoin, String.toList_intercalate, hd, hf, List.map_map]
  have hid : String.ofList ∘ String.toList = id := by
    funext s
    simp
  rw [hid, List.map_id]

theorem dotParts_injective : Function.Injective dotParts := by
  intro s t h
  rw [← dotJoin_dotParts s, h, dotJoin_dotParts]

/-- Some of the parts of a name, joined, are a name with these parts. -/
theorem dotParts_dotJoin_of_subset {s : String} {parts : List String} (hne : parts ≠ [])
    (h : parts ⊆ dotParts s) : dotParts (dotJoin parts) = parts :=
  dotParts_dotJoin hne fun _ hp => dot_notMem_of_mem_dotParts (h hp)

end CodeAtlas.Text
