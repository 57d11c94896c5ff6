import CodeAtlas.Proofs.Naming.ModuleId
import CodeAtlas.Proofs.Naming.Specifiers
/-!
Imports by path. A specifier that starts in the directory of the importing file means the module in
the file that it leads to unless the two ways of naming files differ: by what they take for a
package marker, and by what they take for an extension (`path_import_eq_moduleId_iff`).
-/
namespace CodeAtlas

def partCount (names : List String) : Nat :=
  (names.flatMap Text.dotParts).length

section PartCount

theorem partCount_append (names more : List String) :
    partCount (names ++ more) = partCount names + partCount more := by
  rw [partCount, List.flatMap_append, List.length_append]
  rfl

theorem partCount_pos {names : List String} (h : names ≠ []) : 0 < partCount names := by
  obtain ⟨name, rest, rfl⟩ := List.exists_cons_of_ne_nil h
  have hpos := List.length_pos_of_ne_nil (Text.dotParts_ne_nil name)
  rw [partCount, List.flatMap_cons, List.length_append]
  omega

theorem partCount_append_dot (s t : String) :
    partCount [s ++ "." ++ t] = partCount [s] + partCount [t] := by
  simp only [partCount, List.flatMap_singleton, Text.dotParts_append_dot, List.length_append]

theorem partCount_dropLast_le (names : List String) :
    partCount names.dropLast ≤ partCount names := by
  rcases List.eq_nil_or_concat names with rfl | ⟨front, last, rfl⟩
  · exact le_rfl
  · rw [List.concat_eq_append, List.dropLast_concat, partCount_append]
    exact Nat.le_add_right _ _

theorem partCount_withoutIndex_le (steps : List String) :
    partCount (withoutIndex steps) ≤ partCount steps := by
  unfold withoutIndex
  split
  · exact partCount_dropLast_le steps
  · exact le_rfl

theorem eq_of_cut {name ext : String} {front : List Char}
    (h : name.toList = front ++ '.' :: ext.toList) : name = String.ofList front ++ "." ++ ext := by
  apply String.ext
  rw [h, String.toList_append, String.toList_append, String.toList_ofList, List.append_assoc]
  rfl

theorem one_lt_partCount {name : String} (h : '.' ∈ name.toList) : 1 < partCount [name] := by
  obtain ⟨front, back, hname⟩ := List.append_of_mem h
  have hcut : name = String.ofList front ++ "." ++ String.ofList back :=
    eq_of_cut (by rw [hname, String.toList_ofList])
  have hfront := partCount_pos (List.cons_ne_nil (String.ofList front) [])
  have hback := partCount_pos (List.cons_ne_nil (String.ofList back) [])
  rw [hcut, partCount_append_dot]
  omega

theorem length_dotParts_dotJoin {names : List String} (h : names ≠ []) :
    (Text.dotParts (Text.dotJoin names)).length = partCount names := by
  rw [Text.dotParts_dotJoin_eq_flatMap h, partCount]

/-- Names with fewer parts than others, of which the last holds a dot, are joined to another
text. -/
theorem dotJoin_ne_of_fewer {names dirs : List String} {name : String} (hdot : '.' ∈ name.toList)
    (h : partCount names < partCount dirs + partCount [name]) :
    Text.dotJoin names ≠ Text.dotJoin (dirs ++ [name]) := by
  intro heq
  have hparts :
      (Text.dotParts (Text.dotJoin names)).length = partCount dirs + partCount [name] := by
    rw [heq, length_dotParts_dotJoin (List.concat_ne_nil name dirs), partCount_append]
  by_cases hne : names = []
  · have hone := one_lt_partCount hdot
    have hempty : (Text.dotParts (Text.dotJoin names)).length = 1 := by
      rw [hne]
      rfl
    omega
  · rw [length_dotParts_dotJoin hne] at hparts
    omega

theorem partCount_walkSteps_last_le (dirs : List String) (step : List Char) :
    partCount (walkSteps dirs [step]) ≤ partCount dirs + partCount [String.ofList step] := by
  rw [walkSteps]
  split
  · exact Nat.le_add_right _ _
  · split
    · exact (partCount_dropLast_le dirs).trans (Nat.le_add_right _ _)
    · exact (partCount_append dirs [String.ofList step]).le

end PartCount

def moduleNames (dirs : List String) (stem : String) : List String :=
  if stem ∈ packageMarkers ∧ dirs ≠ [] then dirs else dirs ++ [stem]

/-- A specifier that ends with the name of a file means its module. -/
def MeansModule (dirs : List String) (stem : String) : Prop :=
  stem ≠ "." ∧ stem ≠ ".." ∧ (dirs = [] ∨ stem ≠ "__init__" ∧ stem ≠ "mod")

instance (dirs : List String) (stem : String) : Decidable (MeansModule dirs stem) :=
  inferInstanceAs (Decidable (_ ∧ _ ∧ (_ ∨ _ ∧ _)))

theorem moduleId_eq_moduleNames {p : Path} {dirs : List String} {stem ext : String}
    (h : p.Leads (dirs ++ [stem ++ "." ++ ext])) (hstem : stem ≠ "") (hext : '.' ∉ ext.toList) :
    moduleId p = Text.dotJoin (moduleNames dirs stem) := by
  rw [moduleId_eq h, ownName, standsForDirectory, Path.stemOf_append hstem hext]
  unfold moduleNames
  cases dirs with
  | nil => simp
  | cons dir dirs => by_cases hmarker : stem ∈ packageMarkers <;> simp [hmarker]

theorem withoutIndex_concat (dirs : List String) (stem : String) :
    withoutIndex (dirs ++ [stem]) =
      if stem = "index" ∧ dirs ≠ [] then dirs else dirs ++ [stem] := by
  unfold withoutIndex
  rw [List.getLast?_concat, List.dropLast_concat, List.length_append, List.length_singleton]
  cases dirs with
  | nil => simp
  | cons dir dirs => by_cases hindex : stem = "index" <;> simp [hindex]

theorem plain_of_marker : ∀ stem ∈ packageMarkers, '.' ∉ stem.toList := by
  decide +kernel

theorem moduleNames_of_dot {dirs : List String} {stem : String} (h : '.' ∈ stem.toList) :
    moduleNames dirs stem = dirs ++ [stem] := by
  rw [moduleNames, if_neg fun hmarker => plain_of_marker stem hmarker.1 h]

/-- Stepping from a directory to a name leads to the module of that name, unless the name is no step
or a package marker that only the identifier of the module takes for one. -/
theorem dotJoin_last_eq_iff {dirs : List String} {stem : String} (hne : stem ≠ "")
    (hslash : '/' ∉ stem.toList) :
    Text.dotJoin (withoutIndex (walkSteps dirs [stem.toList])) =
      Text.dotJoin (moduleNames dirs stem) ↔ MeansModule dirs stem := by
  unfold MeansModule
  -- A name of dots is no step below the directory, so that its parts are missing.
  have hdots (hdot : '.' ∈ stem.toList)
      (hwalk : partCount (walkSteps dirs [stem.toList]) ≤ partCount dirs) :
      Text.dotJoin (withoutIndex (walkSteps dirs [stem.toList])) ≠
        Text.dotJoin (moduleNames dirs stem) := by
    have hle := partCount_withoutIndex_le (walkSteps dirs [stem.toList])
    have hpos := partCount_pos (List.cons_ne_nil stem [])
    rw [moduleNames_of_dot hdot]
    exact dotJoin_ne_of_fewer hdot (by omega)
  by_cases hdot : stem = "."
  · subst hdot
    have hdiff := hdots (by decide +kernel) le_rfl
    simpa using hdiff
  by_cases htwo : stem = ".."
  · subst htwo
    have hdiff := hdots (by decide +kernel) (partCount_dropLast_le dirs)
    simpa using hdiff
  have hname : StepName stem := by
    refine ⟨hslash, mt String.toList_eq_nil_iff.mp hne, ?_, ?_⟩
    · exact fun h => hdot (String.toList_injective h)
    · exact fun h => htwo (String.toList_injective h)
  rw [walkSteps_name hname, walkSteps, withoutIndex_concat, moduleNames]
  cases dirs with
  | nil => simp [hdot, htwo]
  | cons dir dirs =>
    have hmarker : stem ∈ packageMarkers ↔ stem = "__init__" ∨ stem = "mod" ∨ stem = "index" := by
      simp [packageMarkers]
    by_cases hindex : stem = "index"
    · simp [hindex, packageMarkers]
    · by_cases hother : stem = "__init__" ∨ stem = "mod"
      · -- The module has the identifier of the directory, the specifier has one name more.
        have hdiff := Text.dotJoin_concat_ne (List.cons_ne_nil dir dirs) stem
        have hmeans : ¬ (stem ≠ "__init__" ∧ stem ≠ "mod") := by tauto
        have hleft : stem ∈ packageMarkers := by tauto
        simpa [hindex, hleft, hdot, htwo, hmeans] using hdiff.symm
      · have hmeans : stem ≠ "__init__" ∧ stem ≠ "mod" := by tauto
        have hkept : stem ∉ packageMarkers := by tauto
        simp [hindex, hkept, hdot, htwo, hmeans]

theorem partCount_moduleNames_le (dirs : List String) (stem : String) :
    partCount (moduleNames dirs stem) ≤ partCount dirs + partCount [stem] := by
  unfold moduleNames
  split
  · exact Nat.le_add_right _ _
  · exact (partCount_append dirs [stem]).le

/-- The specifier leads from one directory to another and writes a name there. -/
def LeadsTo (here : List String) (spec : String) (dirs : List String) (name : String) : Prop :=
  ∃ front, Text.fields '/' spec.toList = front ++ [name.toList] ∧ Reaches here front dirs

section Resolve

variable {spec : String} {importer target : Path} {here dirs : List String}
  {file name stem ext : String}

theorem LeadsTo.slash_notMem (h : LeadsTo here spec dirs name) : '/' ∉ name.toList := by
  obtain ⟨front, hfields, -⟩ := h
  have hmem : name.toList ∈ Text.fields '/' spec.toList := by
    rw [hfields]
    exact List.mem_append_right _ List.mem_cons_self
  exact Text.sep_notMem_of_mem_fields hmem

theorem LeadsTo.endsAsScript_iff (h : LeadsTo here spec dirs name) :
    EndsAsScript spec.toList ↔ EndsAsScript name.toList := by
  obtain ⟨front, hfields, -⟩ := h
  exact endsAsScript_iff_last hfields

/-- A name that ends as a script is stepped to without its extension. -/
theorem LeadsTo.resolve_of_script (h : LeadsTo here spec dirs name)
    (hspec : isRelative spec = true) (himporter : importer.components = (here ++ [file]).map .name)
    (hext : ext ∈ Grammar.Script.extensions) {front : List Char}
    (hname : name.toList = front ++ '.' :: ext.toList) :
    resolvePathImport spec importer Grammar.Script.extensions =
      Text.dotJoin (withoutIndex (walkSteps dirs [front])) := by
  obtain ⟨steps, hfields, hreach⟩ := h
  rw [hname] at hfields
  rw [resolvePathImport_eq hspec himporter, fields_dropExtension hext hfields, walkSteps_append,
    hreach.walkSteps_eq]

/-- Any other name is stepped to as it is. -/
theorem LeadsTo.resolve_of_not_script (h : LeadsTo here spec dirs name)
    (hspec : isRelative spec = true) (himporter : importer.components = (here ++ [file]).map .name)
    (hname : ¬ EndsAsScript name.toList) :
    resolvePathImport spec importer Grammar.Script.extensions =
      Text.dotJoin (withoutIndex (walkSteps dirs [name.toList])) := by
  have hspecEnd := mt h.endsAsScript_iff.mp hname
  obtain ⟨steps, hfields, hreach⟩ := h
  rw [resolvePathImport_eq hspec himporter, dropExtension_of_not_script hspecEnd, hfields,
    walkSteps_append, hreach.walkSteps_eq]

/-- Dropping the extension of a name and stepping to the rest loses a part of the name. -/
theorem partCount_walkSteps_lt {front : List Char}
    (hname : name.toList = front ++ '.' :: ext.toList) (dirs : List String) :
    partCount (withoutIndex (walkSteps dirs [front])) < partCount dirs + partCount [name] := by
  have hindex := partCount_withoutIndex_le (walkSteps dirs [front])
  have hstep := partCount_walkSteps_last_le dirs front
  have hparts := partCount_append_dot (String.ofList front) ext
  have hpos := partCount_pos (List.cons_ne_nil ext [])
  rw [← eq_of_cut hname] at hparts
  omega

/-- With the extension written out, a specifier means the module of the file exactly if the
extension is one that is dropped and the name is a step to the module. -/
theorem LeadsTo.resolve_kept_iff (h : LeadsTo here spec dirs (stem ++ "." ++ ext))
    (hspec : isRelative spec = true) (himporter : importer.components = (here ++ [file]).map .name)
    (htarget : target.Leads (dirs ++ [stem ++ "." ++ ext])) (hstem : stem ≠ "")
    (hext : '.' ∉ ext.toList) :
    resolvePathImport spec importer Grammar.Script.extensions = moduleId target ↔
      ext ∈ Grammar.Script.extensions ∧ MeansModule dirs stem := by
  have hname : (stem ++ "." ++ ext).toList = stem.toList ++ '.' :: ext.toList := by
    rw [String.toList_append, String.toList_append, List.append_assoc]
    rfl
  rw [moduleId_eq_moduleNames htarget hstem hext]
  by_cases hscript : ext ∈ Grammar.Script.extensions
  · have hslash : '/' ∉ stem.toList := by
      intro hmem
      refine h.slash_notMem ?_
      rw [hname]
      exact List.mem_append_left _ hmem
    rw [h.resolve_of_script hspec himporter hscript hname, dotJoin_last_eq_iff hstem hslash,
      and_iff_right hscript]
  · have hends : ¬ EndsAsScript (stem ++ "." ++ ext).toList := by
      rintro ⟨e, he, front, hfront⟩
      rw [hname] at hfront
      have hlast := (Text.append_last_inj hext (extension_plain e he).1 hfront).2
      exact hscript (String.toList_injective hlast ▸ he)
    have hdot : '.' ∈ (stem ++ "." ++ ext).toList := by
      rw [hname]
      exact List.mem_append_right _ List.mem_cons_self
    have hindex : stem ++ "." ++ ext ≠ "index" := by
      intro heq
      rw [heq] at hdot
      exact absurd hdot (by decide +kernel)
    have hstep := htarget.stepName _ (List.mem_append_right dirs List.mem_cons_self)
    have hmore : partCount (moduleNames dirs stem) <
        partCount dirs + partCount [stem ++ "." ++ ext] := by
      have hle := partCount_moduleNames_le dirs stem
      have hpos := partCount_pos (List.cons_ne_nil ext [])
      rw [partCount_append_dot]
      omega
    have hdiff := dotJoin_ne_of_fewer hdot hmore
    rw [h.resolve_of_not_script hspec himporter hends, walkSteps_name hstep, walkSteps,
      withoutIndex_concat, if_neg fun hboth => hindex hboth.1]
    simpa [hscript] using hdiff.symm

/-- With the extension left out, a specifier means the module of the file exactly if the rest does
not end as a script again and the name is a step to the module. -/
theorem LeadsTo.resolve_dropped_iff (h : LeadsTo here spec dirs stem)
    (hspec : isRelative spec = true) (himporter : importer.components = (here ++ [file]).map .name)
    (htarget : target.Leads (dirs ++ [stem ++ "." ++ ext])) (hstem : stem ≠ "")
    (hext : '.' ∉ ext.toList) :
    resolvePathImport spec importer Grammar.Script.extensions = moduleId target ↔
      ¬ EndsAsScript stem.toList ∧ MeansModule dirs stem := by
  rw [moduleId_eq_moduleNames htarget hstem hext]
  by_cases hends : EndsAsScript stem.toList
  · have hboth := hends
    obtain ⟨e, he, front, hfront⟩ := hends
    have hdot : '.' ∈ stem.toList := by
      rw [hfront]
      exact List.mem_append_right _ List.mem_cons_self
    have hdiff := dotJoin_ne_of_fewer hdot (partCount_walkSteps_lt hfront dirs)
    rw [h.resolve_of_script hspec himporter he hfront, moduleNames_of_dot hdot]
    simpa [hboth] using hdiff
  · rw [h.resolve_of_not_script hspec himporter hends, dotJoin_last_eq_iff hstem h.slash_notMem,
      and_iff_right hends]

/-- A name that ends as a script is a step. -/
theorem stepName_of_endsAsScript {last : List Char} (hends : EndsAsScript last)
    (hslash : '/' ∉ last) : StepName (String.ofList last) := by
  obtain ⟨e, he, front, hlast⟩ := hends
  have hlength : 3 ≤ last.length := by
    have hext := (extension_plain e he).2.2
    rw [hlast, List.length_append, List.length_cons]
    omega
  have hshort : ∀ dots : List Char, dots.length < 3 → (String.ofList last).toList ≠ dots := by
    intro dots hdots heq
    rw [String.toList_ofList] at heq
    rw [heq] at hlength
    omega
  exact ⟨by rwa [String.toList_ofList], hshort [] (by decide), hshort ['.'] (by decide),
    hshort ['.', '.'] (by decide)⟩

/-- A specifier of a directory that ends as a script leads to a module with fewer parts. -/
theorem resolve_directory_of_script (hreach : Reaches here (Text.fields '/' spec.toList) dirs)
    (hspec : isRelative spec = true) (himporter : importer.components = (here ++ [file]).map .name)
    (hends : EndsAsScript spec.toList) :
    dirs ≠ [] ∧ resolvePathImport spec importer Grammar.Script.extensions ≠ Text.dotJoin dirs := by
  obtain ⟨front, last, hfields⟩ :
      ∃ front last, Text.fields '/' spec.toList = front ++ [last] := by
    rcases List.eq_nil_or_concat (Text.fields '/' spec.toList) with hnil | ⟨front, last, h⟩
    · exact absurd hnil (Text.fields_ne_nil '/' spec.toList)
    · exact ⟨front, last, by rw [h, List.concat_eq_append]⟩
  have hlastEnd := (endsAsScript_iff_last hfields).mp hends
  have hslash : '/' ∉ last := by
    refine Text.sep_notMem_of_mem_fields (s := spec.toList) ?_
    rw [hfields]
    exact List.mem_append_right _ List.mem_cons_self
  have hdirs : dirs = walkSteps here front ++ [String.ofList last] := by
    have hstep :=
      walkSteps_name (stepName_of_endsAsScript hlastEnd hslash) (walkSteps here front) []
    rw [String.toList_ofList] at hstep
    rw [← hreach.walkSteps_eq, hfields, walkSteps_append, hstep, walkSteps]
  refine ⟨by simp [hdirs], ?_⟩
  obtain ⟨e, he, stem, hlast⟩ := hlastEnd
  have hname : (String.ofList last).toList = stem ++ '.' :: e.toList := by
    rw [String.toList_ofList, hlast]
  have hdot : '.' ∈ (String.ofList last).toList := by
    rw [hname]
    exact List.mem_append_right _ List.mem_cons_self
  rw [hlast] at hfields
  rw [resolvePathImport_eq hspec himporter, fields_dropExtension he hfields, walkSteps_append,
    hdirs]
  exact dotJoin_ne_of_fewer hdot (partCount_walkSteps_lt hname (walkSteps here front))

/-- Leaving the index file out changes nothing unless it ends a longer name. -/
theorem dotJoin_withoutIndex_eq_iff :
    Text.dotJoin (withoutIndex dirs) = Text.dotJoin dirs ↔
      ¬ (1 < dirs.length ∧ dirs.getLast? = some "index") := by
  by_cases hindex : 1 < dirs.length ∧ dirs.getLast? = some "index"
  · obtain ⟨hlength, hlast⟩ := hindex
    obtain ⟨above, rfl⟩ := List.getLast?_eq_some_iff.mp hlast
    have hne : above ≠ [] := by
      rintro rfl
      exact absurd hlength (by decide)
    have hdiff := Text.dotJoin_concat_ne hne "index"
    rw [withoutIndex_concat, if_pos ⟨rfl, hne⟩]
    simpa [List.length_pos_iff, hne] using hdiff
  · have hkept : withoutIndex dirs = dirs := by
      rw [withoutIndex, if_neg]
      simpa using hindex
    rw [hkept]
    simpa using hindex

/-- A specifier of the directory of an index file means its module exactly if the file is below the
root, the specifier does not end as a script and the directory is not taken for an index file. -/
theorem resolve_directory_iff (hreach : Reaches here (Text.fields '/' spec.toList) dirs)
    (hspec : isRelative spec = true) (himporter : importer.components = (here ++ [file]).map .name)
    (htarget : target.Leads (dirs ++ ["index" ++ "." ++ ext])) (hext : '.' ∉ ext.toList) :
    resolvePathImport spec importer Grammar.Script.extensions = moduleId target ↔
      dirs ≠ [] ∧ ¬ EndsAsScript spec.toList ∧
        ¬ (1 < dirs.length ∧ dirs.getLast? = some "index") := by
  rw [moduleId_eq_moduleNames htarget (by decide) hext]
  by_cases hends : EndsAsScript spec.toList
  · obtain ⟨hne, hdiff⟩ := resolve_directory_of_script hreach hspec himporter hends
    have hnames : moduleNames dirs "index" = dirs := if_pos ⟨by decide, hne⟩
    simpa [hnames, hends] using hdiff
  · rw [resolvePathImport_eq hspec himporter, dropExtension_of_not_script hends,
      hreach.walkSteps_eq]
    by_cases hne : dirs = []
    · subst hne
      have hdiff : Text.dotJoin (withoutIndex []) ≠ Text.dotJoin (moduleNames [] "index") := by
        decide +kernel
      simpa using hdiff
    · have hnames : moduleNames dirs "index" = dirs := if_pos ⟨by decide, hne⟩
      rw [hnames, dotJoin_withoutIndex_eq_iff, and_iff_right hne, and_iff_right hends]

end Resolve

/-- What a specifier by path means, against the identifier of the module in the file that it leads
to. Written with the extension, without it, or with nothing but the directory of an index file, it
means that module unless the two disagree on what they leave out: the extension is not among those
of scripts, what is left still ends with one, the name is a package marker other than the index or
no step at all, or the directory is the root or is called like an index file. -/
theorem path_import_eq_moduleId_iff {spec : String} {importer target : Path}
    {here dirs : List String} {file stem ext : String} (hspec : isRelative spec = true)
    (himporter : importer.components = (here ++ [file]).map .name)
    (htarget : target.Leads (dirs ++ [stem ++ "." ++ ext])) (hstem : stem ≠ "")
    (hext : '.' ∉ ext.toList) :
    (LeadsTo here spec dirs (stem ++ "." ++ ext) →
      (resolvePathImport spec importer Grammar.Script.extensions = moduleId target ↔
        ext ∈ Grammar.Script.extensions ∧ MeansModule dirs stem)) ∧
    (LeadsTo here spec dirs stem →
      (resolvePathImport spec importer Grammar.Script.extensions = moduleId target ↔
        ¬ EndsAsScript stem.toList ∧ MeansModule dirs stem)) ∧
    (stem = "index" → Reaches here (Text.fields '/' spec.toList) dirs →
      (resolvePathImport spec importer Grammar.Script.extensions = moduleId target ↔
        dirs ≠ [] ∧ ¬ EndsAsScript spec.toList ∧
          ¬ (1 < dirs.length ∧ dirs.getLast? = some "index"))) := by
  refine ⟨?_, ?_, ?_⟩
  · intro hkept
    exact hkept.resolve_kept_iff hspec himporter htarget hstem hext
  · intro hdropped
    exact hdropped.resolve_dropped_iff hspec himporter htarget hstem hext
  · rintro rfl hreach
    exact resolve_directory_iff hreach hspec himporter htarget hext

theorem path_import_eq_moduleId_iff_sibling :
    resolvePathImport "./b" ⟨"src/a.ts"⟩ Grammar.Script.extensions = moduleId ⟨"src/b.ts"⟩ := by
  have himporter : (Path.mk "src/a.ts").components = (["src"] ++ ["a.ts"]).map .name := by
    decide +kernel
  have htarget : (Path.mk "src/b.ts").Leads (["src"] ++ ["b" ++ "." ++ "ts"]) :=
    .inl (by decide +kernel)
  have hleads : LeadsTo ["src"] "./b" ["src"] "b" :=
    ⟨[['.']], by decide +kernel, .stay (.inr rfl) .here⟩
  have hspec : isRelative "./b" = true := by decide +kernel
  have hmeans := (path_import_eq_moduleId_iff hspec himporter htarget (by decide)
    (by decide +kernel)).2.1 hleads
  exact hmeans.mpr (by decide +kernel)

/-- A script that is called like a package marker of another language is not found by its name. -/
theorem path_import_misses_module : ¬ ∀ (spec : String) (importer target : Path)
    (here dirs : List String) (file stem ext : String), isRelative spec = true →
    importer.components = (here ++ [file]).map .name →
    target.Leads (dirs ++ [stem ++ "." ++ ext]) → ext ∈ Grammar.Script.extensions →
    LeadsTo here spec dirs stem →
    resolvePathImport spec importer Grammar.Script.extensions = moduleId target := by
  intro h
  have htarget : (Path.mk "src/mod.ts").Leads (["src"] ++ ["mod" ++ "." ++ "ts"]) :=
    .inl (by decide +kernel)
  have hleads : LeadsTo ["src"] "./mod" ["src"] "mod" :=
    ⟨[['.']], by decide +kernel, .stay (.inr rfl) .here⟩
  have hmeans := h "./mod" ⟨"src/a.ts"⟩ ⟨"src/mod.ts"⟩ ["src"] ["src"] "a.ts" "mod" "ts"
    (by decide +kernel) (by decide +kernel) htarget (by decide +kernel) hleads
  exact absurd hmeans (by decide +kernel)

end CodeAtlas
