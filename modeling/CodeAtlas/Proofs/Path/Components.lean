import CodeAtlas.Path
import CodeAtlas.Proofs.Text.Parts
import Mathlib.Tactic.Common
/-!
The components of a path and its text. Only the first component can be a root or a dot
(`orderly_components`); components in such an order are those of the path that is written with one
slash between them (`components_ofComponents`), and joining one more to it writes it behind
(`join_ofComponents`).
-/
namespace CodeAtlas

structure StepName (s : String) : Prop where
  slash : '/' ∉ s.toList
  ne_nil : s.toList ≠ []
  ne_dot : s.toList ≠ ['.']
  ne_dots : s.toList ≠ ['.', '.']

instance (s : String) : Decidable (StepName s) :=
  decidable_of_iff ('/' ∉ s.toList ∧ s.toList ≠ [] ∧ s.toList ≠ ['.'] ∧ s.toList ≠ ['.', '.'])
    ⟨fun h => ⟨h.1, h.2.1, h.2.2.1, h.2.2.2⟩, fun h => ⟨h.slash, h.ne_nil, h.ne_dot, h.ne_dots⟩⟩

theorem Component.ofStep?_eq_name {step : List Char} {s : String}
    (h : ofStep? step = some (.name s)) (hslash : '/' ∉ step) : StepName s := by
  unfold ofStep? at h
  split at h
  · simp at h
  · simp at h
  · simp at h
  · rename_i hnil hdot hdots
    obtain rfl : String.ofList step = s := by simpa using h
    rw [← String.toList_ofList (l := step)] at hslash hnil hdot hdots
    exact ⟨hslash, hnil, hdot, hdots⟩

/-- A name of a step is read as itself. -/
theorem StepName.ofStep? {s : String} (h : StepName s) :
    Component.ofStep? s.toList = some (.name s) := by
  unfold Component.ofStep?
  split
  · rename_i heq
    exact absurd heq h.ne_nil
  · rename_i heq
    exact absurd heq h.ne_dot
  · rename_i heq
    exact absurd heq h.ne_dots
  · rw [String.ofList_toList]

namespace Path

/-- The names of a path are names of steps. -/
theorem stepName_of_mem {p : Path} {s : String} (h : .name s ∈ p.components) : StepName s := by
  have hfields : ∀ steps : List (List Char), (∀ step ∈ steps, '/' ∉ step) →
      .name s ∈ steps.filterMap Component.ofStep? → StepName s := by
    intro steps hsteps hmem
    obtain ⟨step, hstep, heq⟩ := List.mem_filterMap.mp hmem
    exact Component.ofStep?_eq_name heq (hsteps step hstep)
  have hslash : ∀ text : List Char, ∀ step ∈ Text.fields '/' text, '/' ∉ step :=
    fun _ _ => Text.sep_notMem_of_mem_fields
  unfold components componentsOf at h
  split at h
  · rename_i rest _
    rcases List.mem_cons.mp h with h | h
    · simp at h
    · exact hfields _ (hslash rest) h
  · have hall := hslash p.text.toList
    split at h
    · rename_i steps heq
      rw [heq] at hall
      rcases List.mem_cons.mp h with h | h
      · simp at h
      · exact hfields _ (fun step hstep => hall step (List.mem_cons_of_mem _ hstep)) h
    · exact hfields _ hall h

/-- A path that was written has components. -/
theorem components_ne_nil {p : Path} (h : p.text.isEmpty = false) : p.components ≠ [] := by
  have htext : p.text.toList ≠ [] := by
    intro hnil
    rw [String.toList_eq_nil_iff.mp hnil] at h
    simp at h
  obtain ⟨c, rest, hc⟩ := List.exists_cons_of_ne_nil htext
  unfold components componentsOf
  split
  · simp
  · rename_i hslash
    have hne : c ≠ '/' := by
      rintro rfl
      exact hslash rest hc
    obtain ⟨part, parts, hparts⟩ := List.exists_cons_of_ne_nil (Text.fields_ne_nil '/' rest)
    rw [hc, Text.fields_cons, if_neg hne, hparts, List.modifyHead_cons]
    split
    · simp
    · rename_i hdot
      have hstep : ∃ x, Component.ofStep? (c :: part) = some x := by
        unfold Component.ofStep?
        split
        · rename_i heq
          simp at heq
        · rename_i heq
          exact absurd (by rw [heq]) (hdot parts)
        · exact ⟨_, rfl⟩
        · exact ⟨_, rfl⟩
      obtain ⟨x, hx⟩ := hstep
      rw [List.filterMap_cons_some hx]
      simp

/-- A path has steps unless nothing is written. -/
theorem steps_ne_nil_iff {p : Path} : p.steps ≠ [] ↔ p.text.isEmpty = false := by
  rw [steps, ne_eq, List.map_eq_nil_iff]
  refine ⟨fun h => ?_, components_ne_nil⟩
  rw [Bool.eq_false_iff, ne_eq, String.isEmpty_iff]
  intro hempty
  refine h ?_
  rw [components, hempty]
  rfl

def opening (step : List Char) : List Component :=
  if step = ['.'] then [.current] else (Component.ofStep? step).toList

/-- The components of a path are read off its fields, the first of them in its own way. -/
theorem componentsOf_of_fields {s first : List Char} {rest : List (List Char)}
    (hslash : ∀ tail, s ≠ '/' :: tail) (h : Text.fields '/' s = first :: rest) :
    componentsOf s = opening first ++ rest.filterMap Component.ofStep? := by
  unfold componentsOf opening
  split
  · rename_i tail
    exact absurd rfl (hslash tail)
  · rw [h]
    by_cases hdot : first = ['.']
    · rw [hdot, if_pos rfl]
      rfl
    · rw [if_neg hdot]
      split
      · rename_i heq
        exact absurd (List.cons.inj heq).1 hdot
      · rw [List.filterMap_cons]
        cases Component.ofStep? first <;> rfl

/-- What follows a slash adds its steps. -/
theorem componentsOf_append_slash {s : List Char} (hs : s ≠ []) (t : List Char) :
    componentsOf (s ++ '/' :: t) =
      componentsOf s ++ (Text.fields '/' t).filterMap Component.ofStep? := by
  obtain ⟨c, tail, rfl⟩ := List.exists_cons_of_ne_nil hs
  by_cases hc : c = '/'
  · rw [hc]
    change Component.root :: (Text.fields '/' (tail ++ '/' :: t)).filterMap Component.ofStep? =
      (Component.root :: (Text.fields '/' tail).filterMap Component.ofStep?) ++ _
    rw [Text.fields_append_cons, List.filterMap_append, List.cons_append]
  · obtain ⟨first, rest, hfields⟩ := List.exists_cons_of_ne_nil (Text.fields_ne_nil '/' (c :: tail))
    have hlonger : Text.fields '/' ((c :: tail) ++ '/' :: t) =
        first :: (rest ++ Text.fields '/' t) := by
      rw [Text.fields_append_cons, hfields, List.cons_append]
    have hslash : ∀ more, (c :: tail) ≠ '/' :: more := fun more heq => hc (List.cons.inj heq).1
    have hslash' : ∀ more, (c :: tail) ++ '/' :: t ≠ '/' :: more :=
      fun more heq => hc (List.cons.inj heq).1
    rw [componentsOf_of_fields hslash' hlonger, componentsOf_of_fields hslash hfields,
      List.filterMap_append, List.append_assoc]

end Path

structure Component.IsStep (c : Component) : Prop where
  made : ofStep? c.text.toList = some c
  slash : '/' ∉ c.text.toList

namespace Component

theorem toList_text_of_ofStep? {step : List Char} {c : Component} (h : ofStep? step = some c) :
    c.text.toList = step := by
  unfold ofStep? at h
  split at h
  · cases h
  · cases h
  · cases h
    rfl
  · cases h
    exact String.toList_ofList

theorem isStep_of_ofStep? {step : List Char} {c : Component} (h : ofStep? step = some c)
    (hslash : '/' ∉ step) : c.IsStep := by
  have htext := toList_text_of_ofStep? h
  exact ⟨by rw [htext, h], by rwa [htext]⟩

theorem isStep_name {s : String} (h : StepName s) : (name s).IsStep :=
  ⟨h.ofStep?, h.slash⟩

theorem IsStep.ne_nil {c : Component} (h : c.IsStep) : c.text.toList ≠ [] := by
  intro hnil
  have hmade := h.made
  rw [hnil] at hmade
  cases hmade

theorem IsStep.ne_dot {c : Component} (h : c.IsStep) : c.text.toList ≠ ['.'] := by
  intro hdot
  have hmade := h.made
  rw [hdot] at hmade
  cases hmade

end Component

namespace Path

/-- Components in an order in which paths have them. -/
structure Orderly (cs : List Component) : Prop where
  first : ∀ c, cs.head? = some c → c = .root ∨ c = .current ∨ c.IsStep
  later : ∀ c ∈ cs.tail, c.IsStep

theorem orderly_of_steps {cs : List Component} (h : ∀ c ∈ cs, c.IsStep) : Orderly cs :=
  ⟨fun c hc => .inr (.inr (h c (List.mem_of_head? hc))),
    fun c hc => h c (List.mem_of_mem_tail hc)⟩

theorem Orderly.front {cs ds : List Component} (h : Orderly ds) (hfront : cs <+: ds) :
    Orderly cs := by
  obtain ⟨rest, rfl⟩ := hfront
  cases cs with
  | nil => exact orderly_of_steps fun c hc => absurd hc List.not_mem_nil
  | cons d cs => exact ⟨h.first, fun c hc => h.later c (List.mem_append_left rest hc)⟩

/-- The text of a component that is no root. -/
theorem Orderly.plain {cs : List Component} (h : Orderly cs) {c : Component} (hc : c ∈ cs)
    (hroot : c ≠ .root) : '/' ∉ c.text.toList ∧ c.text.toList ≠ [] := by
  have hcases : c = .current ∨ c.IsStep := by
    cases cs with
    | nil => exact absurd hc List.not_mem_nil
    | cons d rest =>
      rcases List.mem_cons.mp hc with rfl | hc
      · exact (h.first c rfl).resolve_left hroot
      · exact .inr (h.later c hc)
  rcases hcases with rfl | hstep
  · decide
  · exact ⟨hstep.slash, hstep.ne_nil⟩

/-- Only the first component of a path can be a root or a dot. -/
theorem orderly_components (p : Path) : Orderly p.components := by
  have hsteps (s : List Char) : ∀ c ∈ (Text.fields '/' s).filterMap Component.ofStep?,
      c.IsStep := by
    intro c hc
    obtain ⟨step, hstep, hmade⟩ := List.mem_filterMap.mp hc
    exact Component.isStep_of_ofStep? hmade (Text.sep_notMem_of_mem_fields hstep)
  unfold components componentsOf
  split
  · rename_i rest _
    exact ⟨fun c hc => .inl (Option.some.inj hc).symm, hsteps rest⟩
  · have hall := hsteps p.text.toList
    split
    · rename_i steps heq
      rw [heq] at hall
      exact ⟨fun c hc => .inr (.inl (Option.some.inj hc).symm), hall⟩
    · exact orderly_of_steps hall

def ofComponents : List Component → Path
  | .root :: rest => ⟨"/" ++ "/".intercalate (rest.map Component.text)⟩
  | cs => ⟨"/".intercalate (cs.map Component.text)⟩

theorem ofComponents_of_ne_root {c : Component} (hc : c ≠ .root) (rest : List Component) :
    ofComponents (c :: rest) = ⟨"/".intercalate ((c :: rest).map Component.text)⟩ := by
  unfold ofComponents
  split
  · rename_i heq
    exact absurd (List.cons.inj heq).1 hc
  · rfl

theorem fields_intercalate_text {cs : List Component} (hne : cs ≠ [])
    (h : ∀ c ∈ cs, '/' ∉ c.text.toList) :
    Text.fields '/' ("/".intercalate (cs.map Component.text)).toList =
      cs.map fun c => c.text.toList := by
  have hslash : "/".toList = ['/'] := rfl
  rw [String.toList_intercalate, hslash, List.map_map]
  refine Text.fields_intercalate '/' _ (by simpa using hne) ?_
  intro part hpart
  obtain ⟨c, hc, rfl⟩ := List.mem_map.mp hpart
  exact h c hc

theorem filterMap_ofStep? {cs : List Component} (h : ∀ c ∈ cs, c.IsStep) :
    (cs.map fun c => c.text.toList).filterMap Component.ofStep? = cs := by
  rw [List.filterMap_map]
  conv_rhs => rw [← List.filterMap_some (l := cs)]
  exact List.filterMap_congr fun c hc => (h c hc).made

/-- The path that is written for some components has them. -/
theorem components_ofComponents {cs : List Component} (h : Orderly cs) :
    (ofComponents cs).components = cs := by
  cases cs with
  | nil => rfl
  | cons c rest =>
    have hrest : ∀ d ∈ rest, d.IsStep := h.later
    by_cases hroot : c = .root
    · rw [hroot]
      change componentsOf ("/" ++ "/".intercalate (rest.map Component.text)).toList = _
      rw [String.toList_append]
      change Component.root :: (Text.fields '/' ("/".intercalate
        (rest.map Component.text)).toList).filterMap Component.ofStep? = Component.root :: rest
      by_cases hnil : rest = []
      · rw [hnil]
        rfl
      · rw [fields_intercalate_text hnil fun d hd => (hrest d hd).slash, filterMap_ofStep? hrest]
    · obtain ⟨hslash, hne⟩ := h.plain List.mem_cons_self hroot
      have hall : ∀ d ∈ c :: rest, '/' ∉ d.text.toList :=
        List.forall_mem_cons.mpr ⟨hslash, fun d hd => (hrest d hd).slash⟩
      have hfields := fields_intercalate_text (List.cons_ne_nil c rest) hall
      have hbegin : ∀ tail,
          ("/".intercalate ((c :: rest).map Component.text)).toList ≠ '/' :: tail := by
        intro tail heq
        rw [heq, Text.fields_cons, if_pos rfl, List.map_cons, List.cons.injEq] at hfields
        exact hne hfields.1.symm
      rw [ofComponents_of_ne_root hroot]
      change componentsOf ("/".intercalate ((c :: rest).map Component.text)).toList = c :: rest
      rw [componentsOf_of_fields hbegin hfields, filterMap_ofStep? hrest]
      unfold opening
      rcases (h.first c rfl).resolve_left hroot with rfl | hstep
      · rfl
      · rw [if_neg hstep.ne_dot, hstep.made]
        rfl

/-- The first component of a path is a path of its own. -/
theorem components_first {p : Path} {first : Component} {rest : List Component}
    (h : p.components = first :: rest) : (⟨first.text⟩ : Path).components = [first] := by
  have hfirst : Orderly [first] := by
    apply (orderly_components p).front
    rw [h]
    exact ⟨rest, rfl⟩
  rw [← components_ofComponents hfirst]
  by_cases hroot : first = .root
  · rw [hroot]
    rfl
  · rw [ofComponents_of_ne_root hroot, List.map_singleton, String.intercalate_singleton]

section Join

theorem begins_slash {c : Component} (h : c.IsStep) : Text.begins "/" c.text = false := by
  have hslash := h.slash
  unfold Text.begins
  cases hc : c.text.toList with
  | nil => rfl
  | cons d rest =>
    rw [hc] at hslash
    have hne : '/' ≠ d := fun heq => hslash (heq ▸ List.mem_cons_self)
    simpa [List.isPrefixOf] using hne

theorem ends_slash_append {before last : String} (hslash : '/' ∉ last.toList)
    (hne : last.toList ≠ []) : Text.ends "/" (before ++ last) = false := by
  rw [Bool.eq_false_iff]
  intro hsome
  obtain ⟨rest, hrest⟩ := Option.isSome_iff_exists.mp hsome
  obtain ⟨init, d, hd⟩ := (List.eq_nil_or_concat' last.toList).resolve_left hne
  rw [Text.before?_eq_some_iff, String.toList_append, hd, ← List.append_assoc] at hrest
  have hlast : d = '/' := (List.cons.inj (List.append_inj_right' hrest rfl)).1
  rw [hd, hlast] at hslash
  exact hslash (List.mem_append_right _ List.mem_cons_self)

/-- Behind a text that ends with a component a slash comes before the next one. -/
theorem join_intercalate (start : String) (cs : List Component) {c d : Component}
    (hd : '/' ∉ d.text.toList ∧ d.text.toList ≠ []) (hc : c.IsStep) :
    (⟨start ++ "/".intercalate ((cs ++ [d]).map Component.text)⟩ : Path).join ⟨c.text⟩ =
      ⟨start ++ "/".intercalate ((cs ++ [d] ++ [c]).map Component.text)⟩ := by
  have hlonger : "/".intercalate ((cs ++ [d] ++ [c]).map Component.text) =
      "/".intercalate ((cs ++ [d]).map Component.text) ++ "/" ++ c.text := by
    rw [@List.map_append _ _ Component.text (cs ++ [d]),
      String.intercalate_append_of_ne_nil (by simp) (by simp), List.map_singleton,
      String.intercalate_singleton]
  have hlast : ∃ front, start ++ "/".intercalate ((cs ++ [d]).map Component.text) =
      front ++ d.text := by
    rw [List.map_append, List.map_singleton]
    by_cases hnil : cs.map Component.text = []
    · exact ⟨start, by rw [hnil, List.nil_append, String.intercalate_singleton]⟩
    · refine ⟨start ++ ("/".intercalate (cs.map Component.text) ++ "/"), ?_⟩
      rw [String.intercalate_append_of_ne_nil hnil (by simp), String.intercalate_singleton,
        ← String.append_assoc]
  obtain ⟨front, hfront⟩ := hlast
  have hempty : (front ++ d.text).isEmpty = false := by
    rw [Bool.eq_false_iff, ne_eq, String.isEmpty_iff]
    intro hnil
    have hlist := congrArg String.toList hnil
    rw [String.toList_append] at hlist
    exact hd.2 (List.append_eq_nil_iff.mp hlist).2
  unfold join
  rw [begins_slash hc, hfront, hempty, ends_slash_append hd.1 hd.2, hlonger,
    ← String.append_assoc, ← String.append_assoc, hfront]
  rfl

/-- Joining one component more writes it behind the others. -/
theorem join_ofComponents {cs : List Component} {c : Component} (h : Orderly (cs ++ [c])) :
    (ofComponents cs).join ⟨c.text⟩ = ofComponents (cs ++ [c]) := by
  cases cs with
  | nil =>
    by_cases hroot : c = .root
    · rw [hroot]
      rfl
    · rw [List.nil_append, ofComponents_of_ne_root hroot, List.map_singleton,
        String.intercalate_singleton]
      exact if_pos (Bool.or_true _)
  | cons d rest =>
    have hlater : ∀ e ∈ rest ++ [c], e.IsStep := h.later
    have hc : c.IsStep := hlater c (List.mem_append_right rest List.mem_cons_self)
    by_cases hroot : d = .root
    · rw [hroot]
      obtain rfl | ⟨front, e, rfl⟩ := List.eq_nil_or_concat' rest
      · have hends : Text.ends "/" (ofComponents [.root]).text = true := rfl
        unfold join
        rw [begins_slash hc, hends]
        change (⟨"/" ++ c.text⟩ : Path) = ⟨"/" ++ "/".intercalate [c.text]⟩
        rw [String.intercalate_singleton]
      · have he : e.IsStep := hlater e (by simp)
        exact join_intercalate "/" front ⟨he.slash, he.ne_nil⟩ hc
    · obtain ⟨front, e, hsplit⟩ :=
        (List.eq_nil_or_concat' (d :: rest)).resolve_left (List.cons_ne_nil d rest)
      have he : '/' ∉ e.text.toList ∧ e.text.toList ≠ [] := by
        have hmem : e ∈ d :: rest := hsplit ▸ List.mem_append_right front List.mem_cons_self
        rcases List.mem_cons.mp hmem with rfl | hmem
        · exact h.plain List.mem_cons_self hroot
        · have hstep : e.IsStep := hlater e (List.mem_append_left _ hmem)
          exact ⟨hstep.slash, hstep.ne_nil⟩
      have hjoin := join_intercalate "" front he hc
      rw [String.empty_append, String.empty_append, ← hsplit] at hjoin
      rw [List.cons_append, ofComponents_of_ne_root hroot, ofComponents_of_ne_root hroot, hjoin,
        List.cons_append]

end Join

end Path

end CodeAtlas
