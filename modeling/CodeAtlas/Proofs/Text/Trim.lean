import CodeAtlas.Text.Blank
import Mathlib.Data.List.TakeWhile
/-!
Trimming. A text is its trimmed text between blanks (`exists_eq_trim`), and a character that is
written behind it comes behind its trimmed text and blanks (`trim_append`).
-/
namespace CodeAtlas.Text

theorem exists_eq_dropWhile (p : Char → Bool) (s : List Char) :
    ∃ lead, (∀ c ∈ lead, p c = true) ∧ s = lead ++ s.dropWhile p :=
  ⟨s.takeWhile p, fun _ hc => List.mem_takeWhile_imp hc, List.takeWhile_append_dropWhile.symm⟩

theorem exists_eq_trimEndWhile (p : Char → Bool) (s : List Char) :
    ∃ trail, (∀ c ∈ trail, p c = true) ∧ s = trimEndWhile p s ++ trail := by
  obtain ⟨lead, hlead, heq⟩ := exists_eq_dropWhile p s.reverse
  refine ⟨lead.reverse, fun c hc => hlead c (List.mem_reverse.mp hc), ?_⟩
  rw [trimEndWhile, ← List.reverse_append, ← heq, List.reverse_reverse]

theorem trimEndWhile_append_singleton {p : Char → Bool} {c : Char} (hc : p c = false)
    (s : List Char) : trimEndWhile p (s ++ [c]) = s ++ [c] := by
  rw [trimEndWhile, List.reverse_append, List.reverse_singleton, List.singleton_append,
    List.dropWhile_cons, if_neg (by simp [hc]), List.reverse_cons, List.reverse_reverse]

/-- A text is its trimmed text between blanks. -/
theorem exists_eq_trim (s : List Char) : ∃ lead trail, (∀ c ∈ lead, isBlank c = true) ∧
    (∀ c ∈ trail, isBlank c = true) ∧ s = lead ++ (trim s ++ trail) := by
  obtain ⟨lead, hlead, hs⟩ := exists_eq_dropWhile isBlank s
  obtain ⟨trail, htrail, hdropped⟩ := exists_eq_trimEndWhile isBlank (s.dropWhile isBlank)
  exact ⟨lead, trail, hlead, htrail, by rw [trim, trimWhile, ← hdropped, ← hs]⟩

theorem mem_of_mem_trim {s : List Char} {c : Char} (h : c ∈ trim s) : c ∈ s := by
  obtain ⟨lead, trail, -, -, heq⟩ := exists_eq_trim s
  rw [heq]
  exact List.mem_append_right lead (List.mem_append_left trail h)

theorem dropWhile_ne_nil_of_trim {s : List Char} (hs : trim s ≠ []) :
    s.dropWhile isBlank ≠ [] := by
  intro hnil
  rw [trim, trimWhile, hnil] at hs
  exact hs rfl

/-- A character behind a text comes behind blanks when the text is trimmed. -/
theorem trim_append {s pad : List Char} {c : Char} (hs : trim s ≠ [])
    (hpad : ∀ d ∈ pad, isBlank d = true) (hc : isBlank c = false) :
    ∃ gap, (∀ d ∈ gap, isBlank d = true) ∧
      trim (s ++ (pad ++ [c])) = trim s ++ (gap ++ [c]) := by
  obtain ⟨trail, htrail, hdropped⟩ := exists_eq_trimEndWhile isBlank (s.dropWhile isBlank)
  have hempty : (s.dropWhile isBlank).isEmpty = false := by
    rw [List.isEmpty_eq_false_iff]
    exact dropWhile_ne_nil_of_trim hs
  have htrim : trim (s ++ (pad ++ [c])) = s.dropWhile isBlank ++ (pad ++ [c]) := by
    rw [trim, trimWhile, List.dropWhile_append, hempty, if_neg (by simp), ← List.append_assoc,
      trimEndWhile_append_singleton hc]
  refine ⟨trail ++ pad, ?_, ?_⟩
  · intro d hd
    exact (List.mem_append.mp hd).elim (htrail d) (hpad d)
  · have hall := congrArg (· ++ (pad ++ [c])) hdropped
    rw [List.append_assoc] at hall
    rw [htrim, trim, trimWhile, List.append_assoc]
    exact hall

/-- The blanks in front of a text are the same with more text behind it. -/
theorem takeWhile_isBlank_append {s : List Char} (hs : trim s ≠ []) (t : List Char) :
    (s ++ t).takeWhile isBlank = s.takeWhile isBlank := by
  have hlen : (s.takeWhile isBlank).length ≠ s.length := by
    intro hlen
    have hall := List.takeWhile_append_dropWhile (p := isBlank) (l := s)
    have hdropped := congrArg List.length hall
    rw [List.length_append, hlen] at hdropped
    exact dropWhile_ne_nil_of_trim hs (List.length_eq_zero_iff.mp (by omega))
  rw [List.takeWhile_append, if_neg hlen]

end CodeAtlas.Text
