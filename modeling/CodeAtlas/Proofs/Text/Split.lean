import CodeAtlas.Proofs.Naming.Steps
/-!
Where a separator is found in a text that is written in pieces, and what trimming leaves of a text
between blanks.
-/
namespace CodeAtlas.Text

section Separator

variable {c : Char} {sep front : List Char}

/-- A separator is not found in a text without its first character. -/
theorem splitOnce?_append (h : c ∉ front) (s : List Char) :
    splitOnce? (c :: sep) (front ++ s) =
      (splitOnce? (c :: sep) s).map fun (head, tail) => (front ++ head, tail) := by
  induction front with
  | nil => cases hs : splitOnce? (c :: sep) s <;> simp [hs]
  | cons d front ih =>
    have hd : c ≠ d := fun heq => h (heq ▸ List.mem_cons_self)
    have hrest : c ∉ front := fun hmem => h (List.mem_cons_of_mem d hmem)
    rw [List.cons_append, splitOnce?]
    simp only [after?, if_neg hd, ih hrest, Option.map_map]
    rfl

/-- A text that begins with the separator is split there. -/
theorem splitOnce?_self (sep rest : List Char) :
    splitOnce? sep (sep ++ rest) = some ([], rest) := by
  have hafter : after? sep (sep ++ rest) = some rest := after?_eq_some_iff.mpr rfl
  cases hs : sep ++ rest with
  | nil =>
    obtain ⟨rfl, rfl⟩ := List.append_eq_nil_iff.mp hs
    rfl
  | cons d t =>
    rw [hs] at hafter
    rw [splitOnce?]
    simp only [hafter]

theorem splitOnce?_of_notMem (h : c ∉ front) : splitOnce? (c :: sep) front = none := by
  have hsplit : splitOnce? (c :: sep) (front ++ []) = _ := splitOnce?_append h []
  rwa [List.append_nil] at hsplit

theorem upTo_append (h : c ∉ front) (s : List Char) :
    upTo (c :: sep) (front ++ s) = front ++ upTo (c :: sep) s := by
  unfold upTo
  rw [splitOnce?_append h]
  cases splitOnce? (c :: sep) s with
  | none => rfl
  | some cut => rfl

theorem upTo_of_notMem (h : c ∉ front) : upTo (c :: sep) front = front := by
  unfold upTo
  rw [splitOnce?_of_notMem h]

theorem upTo_self (sep rest : List Char) : upTo sep (sep ++ rest) = [] := by
  unfold upTo
  rw [splitOnce?_self]

/-- A character that no separator begins with goes on with the text before it. -/
theorem upTo_cons {d : Char} {s : List Char} (h : after? sep (d :: s) = none) :
    upTo sep (d :: s) = d :: upTo sep s := by
  unfold upTo
  rw [splitOnce?]
  simp only [h]
  cases splitOnce? sep s with
  | none => rfl
  | some cut => rfl

end Separator

/-- What is in no part and not in the separator is not in the text. -/
theorem notMem_join {c : Char} {sep : List Char} {parts : List (List Char)} (hsep : c ∉ sep)
    (h : ∀ part ∈ parts, c ∉ part) : c ∉ join sep parts := by
  fun_induction join sep parts with
  | case1 => exact List.not_mem_nil
  | case2 part => exact h part List.mem_cons_self
  | case3 part parts hne ih =>
    rw [List.mem_append, List.mem_append]
    rintro ((hpart | hmem) | hrest)
    · exact h part List.mem_cons_self hpart
    · exact hsep hmem
    · exact ih (fun p hp => h p (List.mem_cons_of_mem part hp)) hrest

/-- A text begins and ends with something else than a blank. -/
def Trimmed (s : List Char) : Prop :=
  (∃ c ∈ s.head?, isBlank c = false) ∧ ∃ c ∈ s.getLast?, isBlank c = false

theorem trimmed_of_not_blank {s : List Char} (hne : s ≠ []) (h : ∀ c ∈ s, isBlank c = false) :
    Trimmed s := by
  refine ⟨⟨s.head hne, List.head?_eq_some_head hne, h _ (List.head_mem hne)⟩,
    ⟨s.getLast hne, List.getLast?_eq_some_getLast hne, h _ (List.getLast_mem hne)⟩⟩

theorem Trimmed.ne_nil {s : List Char} (h : Trimmed s) : s ≠ [] := by
  rintro rfl
  obtain ⟨⟨c, hc, -⟩, -⟩ := h
  cases hc

/-- What trimming leaves begins and ends with something else than a blank. -/
theorem trimmed_trim {s : List Char} (h : trim s ≠ []) : Trimmed (trim s) := by
  have hdropped := dropWhile_ne_nil_of_trim h
  have hreversed : (s.dropWhile isBlank).reverse.dropWhile isBlank ≠ [] :=
    fun hnil => h (congrArg List.reverse hnil)
  obtain ⟨trail, -, heq⟩ := exists_eq_trimEndWhile isBlank (s.dropWhile isBlank)
  have hhead : (trim s).head? = (s.dropWhile isBlank).head? := by
    change s.dropWhile isBlank = trim s ++ trail at heq
    rw [heq, List.head?_append_of_ne_nil _ h]
  have hlast : (trim s).getLast? = ((s.dropWhile isBlank).reverse.dropWhile isBlank).head? := by
    rw [trim, trimWhile, trimEndWhile, List.getLast?_reverse]
  refine ⟨⟨_, ?_, List.head_dropWhile_not isBlank hdropped⟩,
    ⟨_, ?_, List.head_dropWhile_not isBlank hreversed⟩⟩
  · rw [hhead]
    exact List.head?_eq_some_head hdropped
  · rw [hlast]
    exact List.head?_eq_some_head hreversed

/-- What stands between two such texts does not matter. -/
theorem Trimmed.append {s t : List Char} (hs : Trimmed s) (ht : Trimmed t) (between : List Char) :
    Trimmed (s ++ (between ++ t)) := by
  obtain ⟨⟨c, hc, hfirst⟩, -⟩ := hs
  obtain ⟨-, d, hd, hlast⟩ := ht
  have hhead : (s ++ (between ++ t)).head? = some c := by
    rw [List.head?_append, hc, Option.some_or]
  have hend : (s ++ (between ++ t)).getLast? = some d := by
    rw [← List.append_assoc, List.getLast?_append, hd, Option.some_or]
  exact ⟨⟨c, hhead, hfirst⟩, d, hend, hlast⟩

theorem Trimmed.trim_eq {s : List Char} (h : Trimmed s) : trim s = s := by
  obtain ⟨⟨c, hc, hfirst⟩, d, hd, hlast⟩ := h
  have hdrop : s.dropWhile isBlank = s := by
    obtain ⟨rest, rfl⟩ : ∃ rest, s = c :: rest := List.head?_eq_some_iff.mp hc
    rw [List.dropWhile_cons, hfirst, if_neg Bool.false_ne_true]
  obtain ⟨init, hinit⟩ : ∃ init, s = init ++ [d] := List.getLast?_eq_some_iff.mp hd
  rw [trim, trimWhile, hdrop, hinit, trimEndWhile_append_singleton hlast]

variable {gap : List Char}

theorem trim_gap_append (hgap : ∀ c ∈ gap, isBlank c = true) (s : List Char) :
    trim (gap ++ s) = trim s := by
  induction gap with
  | nil => rfl
  | cons c gap ih =>
    rw [List.cons_append, trim_cons (hgap c List.mem_cons_self),
      ih fun d hd => hgap d (List.mem_cons_of_mem c hd)]

theorem trim_append_gap (hgap : ∀ c ∈ gap, isBlank c = true) (s : List Char) :
    trim (s ++ gap) = trim s := by
  induction gap generalizing s with
  | nil => rw [List.append_nil]
  | cons c gap ih =>
    rw [← List.singleton_append, ← List.append_assoc,
      ih (fun d hd => hgap d (List.mem_cons_of_mem c hd)),
      trim_append_singleton (hgap c List.mem_cons_self)]

/-- Characters at the end of a text are dropped together, up to the first one of another kind. -/
theorem trimEndWhile_append {p : Char → Bool} {s t : List Char} (hs : ∀ c ∈ s, p c = false)
    (ht : ∀ c ∈ t, p c = true) : trimEndWhile p (s ++ t) = s := by
  have hdrop : (t.reverse ++ s.reverse).dropWhile p = s.reverse.dropWhile p :=
    List.dropWhile_append_of_pos fun c hc => ht c (List.mem_reverse.mp hc)
  have hkept : s.reverse.dropWhile p = s.reverse := by
    rw [List.dropWhile_eq_self_iff]
    intro hpos
    rw [hs _ (List.mem_reverse.mp (List.getElem_mem hpos))]
    exact Bool.false_ne_true
  rw [trimEndWhile, List.reverse_append, hdrop, hkept, List.reverse_reverse]

end CodeAtlas.Text
