import CodeAtlas.Proofs.Text.Split
/-!
The normal form of a path-like name: dots are its only separators, and between them stand steps
without blanks around. Writing a name with dots gives a normal name (`isNormal_dotted`) and leaves
normal names as they are (`IsNormal.dotted_eq`); the steps of a name that is written in two parts
are those of the parts (`stepsOf_append_separator`). The laws together are `dotted_is_normal_form`.
-/
namespace CodeAtlas

/-- A name in normal form. The empty name has no steps; those of any other one are the parts between
its dots. -/
structure IsNormal (name : String) : Prop where
  separators : ∀ sep ∈ ["::", "->", "/"], ¬ sep.toList <:+: name.toList
  steps : name ≠ "" → ∀ step ∈ Text.dotParts name, step ≠ "" ∧ Text.Trimmed step.toList

section Normal

variable {name : String} {s : List Char}

/-- A text is dotted exactly if it holds none of the other separators. -/
theorem not_infix_separators_iff :
    (∀ sep ∈ ["::", "->", "/"], ¬ sep.toList <:+: s) ↔ IsDotted s := by
  have hslash : ['/'] <:+: s ↔ '/' ∈ s := List.singleton_infix_iff '/' s
  constructor
  · intro h
    exact ⟨Text.noPair_iff.mpr (h "::" (by decide)), Text.noPair_iff.mpr (h "->" (by decide)),
      fun hmem => h "/" (by decide) (hslash.mpr hmem)⟩
  · rintro ⟨hcolons, harrows, hslashes⟩ sep hsep
    simp only [List.mem_cons, List.not_mem_nil, or_false] at hsep
    rcases hsep with rfl | rfl | rfl
    · exact Text.noPair_iff.mp hcolons
    · exact Text.noPair_iff.mp harrows
    · exact fun h => hslashes (hslash.mp h)

theorem isDotted_join {parts : List (List Char)} (h : ∀ part ∈ parts, IsDotted part) :
    IsDotted (Text.join ['.'] parts) where
  colons := Text.noPair_join (by decide) (by decide) fun part hpart => (h part hpart).colons
  arrows := Text.noPair_join (by decide) (by decide) fun part hpart => (h part hpart).arrows
  slash := Text.notMem_join (by decide) fun part hpart => (h part hpart).slash

/-- A step of a name is a piece of the name with its separators written as dots. -/
theorem infix_of_mem_nameSteps {step : List Char} (h : step ∈ nameSteps s) :
    step <:+: dotSeparated s := by
  obtain ⟨part, hpart, rfl⟩ := List.mem_map.mp (List.mem_filter.mp h).1
  obtain ⟨lead, trail, -, -, heq⟩ := Text.exists_eq_trim part
  have hstep : Text.trim part <:+: part := ⟨lead, trail, by rw [List.append_assoc, ← heq]⟩
  exact hstep.trans (Text.infix_of_mem_fields hpart)

theorem trimmed_of_mem_nameSteps {step : List Char} (h : step ∈ nameSteps s) :
    Text.Trimmed step := by
  have hne := ne_nil_of_mem_nameSteps h
  obtain ⟨part, -, rfl⟩ := List.mem_map.mp (List.mem_filter.mp h).1
  exact Text.trimmed_trim hne

/-- What normalising gives is in normal form. -/
theorem isNormal_dotted (s : String) : IsNormal (dotted s) where
  separators := by
    rw [not_infix_separators_iff, dotted, String.toList_ofList]
    exact isDotted_join fun step hstep =>
      (isDotted_dotSeparated s.toList).mono (infix_of_mem_nameSteps hstep)
  steps hne step hstep := by
    have hsteps : stepsOf s ≠ [] := by
      intro hnil
      rw [dotted_eq_dotJoin, hnil] at hne
      exact hne rfl
    rw [dotParts_dotted hsteps] at hstep
    refine ⟨(stepsOf_plain s step hstep).1, ?_⟩
    obtain ⟨part, hpart, rfl⟩ := List.mem_map.mp hstep
    rw [String.toList_ofList]
    exact trimmed_of_mem_nameSteps hpart

theorem stepsIn_of_trimmed (h : ∀ part ∈ Text.fields '.' s, Text.Trimmed part) :
    stepsIn s = Text.fields '.' s := by
  have htrim : ∀ part ∈ Text.fields '.' s, Text.trim part = id part :=
    fun part hpart => (h part hpart).trim_eq
  rw [stepsIn, List.map_congr_left htrim, List.map_id, List.filter_eq_self]
  intro part hpart
  simpa using (h part hpart).ne_nil

/-- A normal name stays as it is. -/
theorem IsNormal.dotted_eq (h : IsNormal name) : dotted name = name := by
  by_cases hempty : name = ""
  · rw [hempty]
    rfl
  · have hfields : ∀ part ∈ Text.fields '.' name.toList, Text.Trimmed part := by
      intro part hpart
      have hstep := (h.steps hempty _ (List.mem_map_of_mem hpart)).2
      rwa [String.toList_ofList] at hstep
    rw [dotted, nameSteps_eq, (not_infix_separators_iff.mp h.separators).dotSeparated_eq,
      stepsIn_of_trimmed hfields, Text.join_fields, String.ofList_toList]

end Normal

section Parts

/-- A dot or a slash between two texts separates their steps. -/
theorem nameSteps_append_separator {sep : Char} (hsep : sep = '.' ∨ sep = '/') (s t : List Char) :
    nameSteps (s ++ sep :: t) = nameSteps s ++ nameSteps t := by
  have hapart : sep ≠ ':' ∧ sep ≠ '-' ∧ sep ≠ '>' := by
    rcases hsep with rfl | rfl <;> decide
  have hbegins : BeginsApart (sep :: t) := by
    intro c hc
    rw [List.head?_cons, Option.mem_some_iff] at hc
    exact hc ▸ ⟨hapart.1, hapart.2.2⟩
  have hends : EndsApart [sep] := by
    intro c hc
    rw [List.getLast?_singleton, Option.mem_some_iff] at hc
    exact hc ▸ ⟨hapart.1, hapart.2.1⟩
  have hdot : dotSeparated [sep] = ['.'] := by
    rcases hsep with rfl | rfl <;> rfl
  have hrest : dotSeparated (sep :: t) = '.' :: dotSeparated t := by
    rw [← List.singleton_append, dotSeparated_append (.inl hends), hdot]
    rfl
  rw [nameSteps_eq, dotSeparated_append (.inr hbegins), hrest, stepsIn_append_dot, nameSteps_eq,
    nameSteps_eq]

/-- A separator between two names keeps the steps of both apart. -/
theorem stepsOf_append_separator {sep : String} (hsep : sep = "." ∨ sep = "/") (a b : String) :
    stepsOf (a ++ sep ++ b) = stepsOf a ++ stepsOf b := by
  have hchars : ∃ c, (c = '.' ∨ c = '/') ∧ sep.toList = [c] := by
    rcases hsep with rfl | rfl
    · exact ⟨'.', .inl rfl, rfl⟩
    · exact ⟨'/', .inr rfl, rfl⟩
  obtain ⟨c, hc, hlist⟩ := hchars
  rw [stepsOf, String.toList_append, String.toList_append, hlist, List.append_assoc,
    List.singleton_append, nameSteps_append_separator hc, List.map_append]
  rfl

/-- Joining the joins of two lists of names, an empty one left out, joins all the names. -/
theorem Text.dotJoin_filter_pair {names more : List String} (h : ∀ s ∈ names, s ≠ "")
    (h' : ∀ s ∈ more, s ≠ "") :
    dotJoin ([dotJoin names, dotJoin more].filter (· ≠ "")) = dotJoin (names ++ more) := by
  have hempty : dotJoin [] = "" := rfl
  by_cases hnames : names = [] <;> by_cases hmore : more = []
  · simp [hnames, hmore, hempty]
  · have hne := (dotJoin_ne_empty_iff h').mpr hmore
    simp [hnames, hempty, hne, dotJoin_singleton]
  · have hne := (dotJoin_ne_empty_iff h).mpr hnames
    simp [hmore, hempty, hne, dotJoin_singleton]
  · have hne := (dotJoin_ne_empty_iff h).mpr hnames
    have hne' := (dotJoin_ne_empty_iff h').mpr hmore
    rw [List.filter_eq_self.mpr (by simp [hne, hne']), ← List.singleton_append,
      dotJoin_append (by simp) (by simp), dotJoin_singleton, dotJoin_singleton,
      dotJoin_append hnames hmore]

end Parts

/-- Writing a name with dots brings it to its normal form: no other separator is left, no step is
empty or has blanks around it, and exactly the normal names stay as they are, so that a second time
nothing changes. With a dot or a slash between them two names are written as the joined normal forms
of the two, without an empty one. -/
theorem dotted_is_normal_form (a b : String) :
    IsNormal (dotted a) ∧ (dotted a = a ↔ IsNormal a) ∧ dotted (dotted a) = dotted a ∧
    dotted (a ++ "." ++ b) = dotted (a ++ "/" ++ b) ∧
    dotted (a ++ "." ++ b) = Text.dotJoin ([dotted a, dotted b].filter (· ≠ "")) := by
  have hnonempty (s : String) : ∀ step ∈ stepsOf s, step ≠ "" :=
    fun step hstep => (stepsOf_plain s step hstep).1
  refine ⟨isNormal_dotted a, ⟨fun h => h ▸ isNormal_dotted a, IsNormal.dotted_eq⟩,
    (isNormal_dotted a).dotted_eq, ?_, ?_⟩
  · rw [dotted_eq_dotJoin, stepsOf_append_separator (.inl rfl), dotted_eq_dotJoin (a ++ "/" ++ b),
      stepsOf_append_separator (.inr rfl)]
  · rw [dotted_eq_dotJoin, stepsOf_append_separator (.inl rfl), dotted_eq_dotJoin a,
      dotted_eq_dotJoin b, Text.dotJoin_filter_pair (hnonempty a) (hnonempty b)]

/-- Half a separator stays, and blanks between two separators are no step. -/
example : dotted " a:::b/ ->c d" = "a.:b.c d" := by
  decide

end CodeAtlas
