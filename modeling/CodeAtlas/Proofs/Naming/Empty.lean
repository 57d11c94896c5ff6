import CodeAtlas.Proofs.Naming.DotImports
import CodeAtlas.Proofs.Naming.Specifiers
import CodeAtlas.Proofs.Text.Trim
import Mathlib.Data.List.Infix
/-!
When nothing is left of a name. A path-like name keeps something exactly if something is written
between its separators (`dotted_ne_empty_iff`); a specifier by path loses everything where its steps
lead to the root (`resolvePathImport_ne_empty_iff`), and one with dots in front where nothing stands
behind the dots and they lead to the root or above it (`resolveDotImport_ne_empty_iff`).
-/
namespace CodeAtlas

namespace Text

/-- Joining leaves nothing exactly if there is no name or only the empty one. -/
theorem dotJoin_eq_empty_iff {names : List String} :
    dotJoin names = "" ↔ names = [] ∨ names = [""] := by
  match names with
  | [] => exact iff_of_true rfl (.inl rfl)
  | [name] => simp [dotJoin_singleton]
  | name :: next :: rest =>
    have hjoin : dotJoin (name :: next :: rest) = name ++ "." ++ dotJoin (next :: rest) := by
      rw [← List.singleton_append, dotJoin_append (by simp) (by simp), dotJoin_singleton]
    have hne : dotJoin (name :: next :: rest) ≠ "" := by
      rw [hjoin]
      intro hempty
      have hchars := congrArg String.toList hempty
      simp at hchars
    simp [hne]

/-- Names that are not empty are joined to an empty text only if there are none. -/
theorem dotJoin_ne_empty_iff {names : List String} (h : ∀ s ∈ names, s ≠ "") :
    dotJoin names ≠ "" ↔ names ≠ [] := by
  rw [ne_eq, dotJoin_eq_empty_iff, not_or, and_iff_left_iff_imp]
  rintro - rfl
  exact h "" List.mem_cons_self rfl

theorem join_ne_nil_iff {sep : List Char} {parts : List (List Char)}
    (h : ∀ part ∈ parts, part ≠ []) : join sep parts ≠ [] ↔ parts ≠ [] := by
  match parts with
  | [] => simp [join]
  | [part] => simpa [join] using h part List.mem_cons_self
  | part :: next :: rest =>
    have hpart := h part List.mem_cons_self
    simp [join, hpart]

/-- A joined part is a piece of the text. -/
theorem infix_join {sep part : List Char} {parts : List (List Char)} (h : part ∈ parts) :
    part <:+: join sep parts := by
  match parts, h with
  | [_], h =>
    rw [List.mem_singleton.mp h]
    exact List.infix_refl _
  | first :: next :: rest, h =>
    rw [join.eq_3 _ _ _ (List.cons_ne_nil next rest)]
    rcases List.mem_cons.mp h with rfl | h
    · exact ((List.prefix_append _ _).trans (List.prefix_append _ _)).isInfix
    · exact (infix_join h).trans (List.suffix_append _ _).isInfix

/-- A field of a text is a piece of it. -/
theorem infix_of_mem_fields {sep : Char} {s part : List Char} (h : part ∈ fields sep s) :
    part <:+: s := by
  have hpart : part <:+: join [sep] (fields sep s) := infix_join h
  rwa [join_fields] at hpart

theorem ofList_ne_empty_iff {s : List Char} : String.ofList s ≠ "" ↔ s ≠ [] := by
  rw [ne_eq, ← String.toList_eq_nil_iff, String.toList_ofList]

/-- Something is left of a trimmed text exactly if it is not blank. -/
theorem trim_ne_nil_iff {s : List Char} : trim s ≠ [] ↔ ∃ c ∈ s, isBlank c = false := by
  constructor
  · intro h
    by_contra hnone
    refine dropWhile_ne_nil_of_trim h (List.dropWhile_eq_nil_iff.mpr ?_)
    intro c hc
    by_contra hblank
    exact hnone ⟨c, hc, Bool.eq_false_iff.mpr hblank⟩
  · rintro ⟨c, hc, hblank⟩ hnil
    obtain ⟨lead, trail, hlead, htrail, heq⟩ := exists_eq_trim s
    rw [hnil, List.nil_append] at heq
    rw [heq, List.mem_append] at hc
    have hall : isBlank c = true := hc.elim (hlead c) (htrail c)
    rw [hblank] at hall
    cases hall

end Text

/-- Something is written between the separators of a name. -/
def HasStep (s : List Char) : Prop :=
  ∃ c ∈ dotSeparated s, c ≠ '.' ∧ Text.isBlank c = false

instance (s : List Char) : Decidable (HasStep s) :=
  decidable_of_iff ((dotSeparated s).any fun c => c != '.' && !Text.isBlank c)
    (by simp [HasStep])

theorem ne_nil_of_mem_nameSteps {s step : List Char} (h : step ∈ nameSteps s) : step ≠ [] := by
  have hkept := (List.mem_filter.mp h).2
  simpa using hkept

/-- A name has steps exactly if something is written between its separators. -/
theorem nameSteps_ne_nil_iff (s : List Char) : nameSteps s ≠ [] ↔ HasStep s := by
  have hfield : nameSteps s ≠ [] ↔
      ∃ part ∈ Text.fields '.' (dotSeparated s), Text.trim part ≠ [] := by
    simp [nameSteps, List.filter_eq_nil_iff]
  rw [hfield]
  constructor
  · rintro ⟨part, hpart, htrim⟩
    obtain ⟨c, hc, hblank⟩ := Text.trim_ne_nil_iff.mp htrim
    refine ⟨c, (Text.infix_of_mem_fields hpart).subset hc, ?_, hblank⟩
    rintro rfl
    exact Text.sep_notMem_of_mem_fields hpart hc
  · rintro ⟨c, hc, hdot, hblank⟩
    obtain ⟨part, hpart, hmem⟩ := Text.exists_mem_fields hc hdot
    exact ⟨part, hpart, Text.trim_ne_nil_iff.mpr ⟨c, hmem, hblank⟩⟩

theorem join_nameSteps_ne_nil_iff (s : List Char) :
    Text.join ['.'] (nameSteps s) ≠ [] ↔ HasStep s := by
  rw [Text.join_ne_nil_iff fun step => ne_nil_of_mem_nameSteps, nameSteps_ne_nil_iff]

theorem dotted_ne_empty_iff (s : String) : dotted s ≠ "" ↔ HasStep s.toList := by
  rw [dotted, Text.ofList_ne_empty_iff, join_nameSteps_ne_nil_iff]

section Paths

def directoryOf (p : Path) : List String :=
  (p.parent?.map Path.steps).getD []

/-- A specifier by path names something: a relative one leads to a place below the root, and of any
other one something is left without its extension. -/
def PathNames (spec : String) (importer : Path) (extensions : List String) : Prop :=
  if isRelative spec then
    walkSteps (directoryOf importer)
      (Text.fields '/' (dropExtension extensions spec.toList)) ≠ []
  else HasStep (dropExtension extensions spec.toList)

instance (spec : String) (importer : Path) (extensions : List String) :
    Decidable (PathNames spec importer extensions) :=
  inferInstanceAs (Decidable (ite _ _ _))

theorem Path.ne_empty_of_mem_steps {p : Path} {s : String} (h : s ∈ p.steps) : s ≠ "" := by
  obtain ⟨c, hc, rfl⟩ := List.mem_map.mp h
  cases c with
  | root => decide
  | current => decide
  | up => decide
  | name s => exact stepName_ne_empty (stepName_of_mem hc)

theorem ne_empty_of_mem_directoryOf {p : Path} {s : String} (h : s ∈ directoryOf p) : s ≠ "" := by
  unfold directoryOf at h
  cases hparent : p.parent? with
  | none =>
    rw [hparent] at h
    cases h
  | some q =>
    rw [hparent] at h
    exact q.ne_empty_of_mem_steps h

/-- Steps from names that are not empty lead to such names. -/
theorem ne_empty_of_mem_walkSteps {dirs : List String} {steps : List (List Char)}
    (h : ∀ s ∈ dirs, s ≠ "") : ∀ s ∈ walkSteps dirs steps, s ≠ "" := by
  induction steps generalizing dirs with
  | nil => exact h
  | cons step steps ih =>
    rw [walkSteps]
    split
    case isTrue hstay => exact ih h
    case isFalse hmove =>
      split
      · exact ih fun s hs => h s (List.dropLast_subset dirs hs)
      · refine ih fun s hs => ?_
        rcases List.mem_append.mp hs with hs | hs
        · exact h s hs
        · rw [List.mem_singleton.mp hs, Text.ofList_ne_empty_iff]
          exact fun hnil => hmove (.inl hnil)

theorem withoutIndex_ne_nil_iff (steps : List String) : withoutIndex steps ≠ [] ↔ steps ≠ [] := by
  unfold withoutIndex
  split
  case isTrue hindex =>
    rw [Bool.and_eq_true, decide_eq_true_eq] at hindex
    rw [← List.length_pos_iff, ← List.length_pos_iff, List.length_dropLast]
    omega
  case isFalse => exact Iff.rfl

theorem withoutIndex_subset (steps : List String) : withoutIndex steps ⊆ steps := by
  unfold withoutIndex
  split
  · exact List.dropLast_subset steps
  · exact List.Subset.refl _

/-- Something is left of a specifier by path exactly if it names something. -/
theorem resolvePathImport_ne_empty_iff (spec : String) (importer : Path)
    (extensions : List String) :
    resolvePathImport spec importer extensions ≠ "" ↔ PathNames spec importer extensions := by
  unfold resolvePathImport PathNames
  dsimp only
  split
  · change Text.dotJoin (withoutIndex _) ≠ "" ↔ _
    rw [Text.dotJoin_ne_empty_iff, withoutIndex_ne_nil_iff]
    · rfl
    · intro s hs
      have hdirs : ∀ s ∈ directoryOf importer, s ≠ "" := fun _ => ne_empty_of_mem_directoryOf
      exact ne_empty_of_mem_walkSteps hdirs s (withoutIndex_subset _ hs)
  · rw [dotted_ne_empty_iff, String.toList_ofList]

end Paths

section Dots

def leadingDots (spec : String) : Nat :=
  (spec.toList.takeWhile (· == '.')).length

def OnlyDots (spec : String) : Prop :=
  ∀ c ∈ spec.toList, c = '.'

instance (spec : String) : Decidable (OnlyDots spec) :=
  decidable_of_iff (spec.toList.all (· == '.')) (by simp [OnlyDots])

/-- A specifier with dots in front names something: a step behind the dots, or the package that the
dots lead to, if it is not the root. -/
def DotNames (spec module : String) (isPackage : Bool) : Prop :=
  if leadingDots spec = 0 then HasStep spec.toList
  else ¬ OnlyDots spec ∨
    (if isPackage then leadingDots spec - 1 else leadingDots spec) <
      (Text.nameParts [module]).length

instance (spec module : String) (isPackage : Bool) : Decidable (DotNames spec module isPackage) :=
  inferInstanceAs (Decidable (ite _ _ _))

theorem length_sub_dropWhile (spec : String) :
    spec.toList.length - (spec.toList.dropWhile (· == '.')).length = leadingDots spec := by
  have hlength := congrArg List.length
    (List.takeWhile_append_dropWhile (p := (· == '.')) (l := spec.toList))
  rw [List.length_append] at hlength
  unfold leadingDots
  omega

/-- A step stands behind the dots exactly if the specifier has a character that is no dot. -/
theorem steps_ne_nil_iff (spec : String) :
    (((Text.fields '.' (spec.toList.dropWhile (· == '.'))).filter fun step => !step.isEmpty).map
      String.ofList) ≠ [] ↔ ¬ OnlyDots spec := by
  have hfield : (((Text.fields '.' (spec.toList.dropWhile (· == '.'))).filter
      fun step => !step.isEmpty).map String.ofList) ≠ [] ↔
      ∃ part ∈ Text.fields '.' (spec.toList.dropWhile (· == '.')), part ≠ [] := by
    simp [List.filter_eq_nil_iff]
  rw [hfield, OnlyDots]
  constructor
  · rintro ⟨part, hpart, hne⟩ honly
    obtain ⟨c, hc⟩ := List.exists_mem_of_ne_nil part hne
    have hspec := List.dropWhile_subset _ ((Text.infix_of_mem_fields hpart).subset hc)
    obtain rfl := honly c hspec
    exact Text.sep_notMem_of_mem_fields hpart hc
  · intro hother
    obtain ⟨c, hc, hdot⟩ : ∃ c ∈ spec.toList, c ≠ '.' := by
      simpa using hother
    have hrest : c ∈ spec.toList.dropWhile (· == '.') := by
      rw [← List.takeWhile_append_dropWhile (p := (· == '.')) (l := spec.toList),
        List.mem_append] at hc
      refine hc.resolve_left fun hlead => hdot ?_
      simpa using List.mem_takeWhile_imp hlead
    obtain ⟨part, hpart, hmem⟩ := Text.exists_mem_fields hrest hdot
    exact ⟨part, hpart, List.ne_nil_of_mem hmem⟩

/-- Something is left of a specifier with dots exactly if it names something. -/
theorem resolveDotImport_ne_empty_iff (spec module : String) (isPackage : Bool) :
    resolveDotImport spec module isPackage ≠ "" ↔ DotNames spec module isPackage := by
  unfold resolveDotImport DotNames
  dsimp only
  rw [length_sub_dropWhile]
  split
  · exact dotted_ne_empty_iff spec
  · have hbase : ((Text.dotParts module).filter fun step => !step.isEmpty) =
        Text.nameParts [module] := by
      rw [Text.nameParts, List.flatMap_singleton]
    rw [hbase]
    generalize (if isPackage then leadingDots spec - 1 else leadingDots spec) = up
    rw [Text.dotJoin_ne_empty_iff, ne_eq, List.append_eq_nil_iff, not_and_or, or_comm]
    · refine or_congr (steps_ne_nil_iff spec) ?_
      rw [← ne_eq, ← List.length_pos_iff, List.length_take]
      omega
    · intro s hs
      rcases List.mem_append.mp hs with hs | hs
      · exact Text.ne_empty_of_mem_nameParts (List.mem_of_mem_take hs)
      · obtain ⟨step, hstep, rfl⟩ := List.mem_map.mp hs
        have hkept := (List.mem_filter.mp hstep).2
        rw [Text.ofList_ne_empty_iff]
        simpa using hkept

end Dots

end CodeAtlas
