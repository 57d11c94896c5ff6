import CodeAtlas.Grammar.Python
import CodeAtlas.Proofs.Naming.ModuleId
import Mathlib.Data.List.TakeWhile
/-!
Imports with dots in front. The first dot means the package of the importing file and each further
dot the directory above, so that the target is the identifier of a module there. It is as long as
the file stands for its directory in both senses: as the identifier of its module has it, and as the
rules of Python have it (`relative_import_target_iff`).
-/
namespace CodeAtlas

namespace Text

def nameParts (names : List String) : List String :=
  (names.flatMap dotParts).filter fun part => !part.isEmpty

theorem nameParts_append (names more : List String) :
    nameParts (names ++ more) = nameParts names ++ nameParts more := by
  unfold nameParts
  rw [List.flatMap_append, List.filter_append]

theorem nameParts_dotJoin {names : List String} (hne : names ≠ []) :
    nameParts [dotJoin names] = nameParts names := by
  unfold nameParts
  rw [List.flatMap_singleton, dotParts_dotJoin_eq_flatMap hne]

theorem flatMap_dotParts_of_subset_nameParts {names parts : List String}
    (h : parts ⊆ nameParts names) : parts.flatMap dotParts = parts := by
  refine flatMap_dotParts_of_notMem fun part hpart => ?_
  obtain ⟨name, -, hname⟩ := List.mem_flatMap.mp (List.mem_filter.mp (h hpart)).1
  exact dot_notMem_of_mem_dotParts hname

theorem ne_empty_of_mem_nameParts {names : List String} {part : String}
    (h : part ∈ nameParts names) : part ≠ "" := by
  have hkept := (List.mem_filter.mp h).2
  simpa using hkept

/-- Names without dots that are not empty are their own parts. -/
theorem nameParts_of_plain {names : List String} (h : ∀ s ∈ names, s ≠ "" ∧ '.' ∉ s.toList) :
    nameParts names = names := by
  unfold nameParts
  rw [flatMap_dotParts_of_notMem fun s hs => (h s hs).2, List.filter_eq_self]
  intro s hs
  simpa using (h s hs).1

/-- Dropping some parts at the end leaves those of the first names exactly if none of these is empty
and as many are dropped as the other names have, or more if there are no first names. -/
theorem take_nameParts_eq_iff {kept left : List String} {up : Nat} :
    (nameParts (kept ++ left)).take ((nameParts (kept ++ left)).length - up) =
        kept.flatMap dotParts ↔
      (∀ part ∈ kept.flatMap dotParts, part ≠ "") ∧
        ((nameParts left).length = up ∨ kept = [] ∧ (nameParts left).length ≤ up) := by
  have hempty : kept.flatMap dotParts = [] ↔ kept = [] := by
    rw [List.flatMap_eq_nil_iff]
    constructor
    · intro h
      rw [List.eq_nil_iff_forall_not_mem]
      exact fun s hs => dotParts_ne_nil s (h s hs)
    · rintro rfl s hs
      cases hs
  constructor
  · intro h
    have hall : ∀ part ∈ kept.flatMap dotParts, part ≠ "" := by
      intro part hpart
      rw [← h] at hpart
      exact ne_empty_of_mem_nameParts (List.mem_of_mem_take hpart)
    have hkept : nameParts kept = kept.flatMap dotParts :=
      List.filter_eq_self.mpr fun part hpart => by simpa using hall part hpart
    refine ⟨hall, ?_⟩
    have hlength := congrArg List.length h
    rw [nameParts_append, List.length_take, List.length_append, hkept] at hlength
    by_cases hnone : kept = []
    · have hzero : (kept.flatMap dotParts).length = 0 := by rw [hempty.mpr hnone]; rfl
      exact .inr ⟨hnone, by omega⟩
    · have hpos := List.length_pos_of_ne_nil (mt hempty.mp hnone)
      exact .inl (by omega)
  · rintro ⟨hall, hup⟩
    have hkept : nameParts kept = kept.flatMap dotParts :=
      List.filter_eq_self.mpr fun part hpart => by simpa using hall part hpart
    rw [nameParts_append, hkept]
    rcases hup with hup | ⟨rfl, hup⟩
    · rw [List.length_append, hup, Nat.add_sub_cancel]
      exact List.take_left
    · rw [List.flatMap_nil, List.nil_append, Nat.sub_eq_zero_of_le hup, List.take_zero]

end Text

def dottedSpec (dots : Nat) (rest : List String) : String :=
  String.ofList (List.replicate dots '.') ++ Text.dotJoin rest

def PlainNames (names : List String) : Prop :=
  ∀ s ∈ names, s ≠ "" ∧ '.' ∉ s.toList

instance (names : List String) : Decidable (PlainNames names) :=
  inferInstanceAs (Decidable (∀ s ∈ names, s ≠ "" ∧ '.' ∉ s.toList))

/-- The directory that some dots mean in a file in the given directories. -/
def packageOf (dirs : List String) (dots : Nat) : List String :=
  dirs.take (dirs.length - (dots - 1))

section Resolve

variable {dots : Nat} {rest : List String}

/-- Behind its dots a specifier holds the joined names. -/
theorem dropWhile_dottedSpec (hne : rest ≠ []) (hrest : PlainNames rest) :
    (dottedSpec dots rest).toList.dropWhile (· == '.') = (Text.dotJoin rest).toList := by
  obtain ⟨first, more, rfl⟩ := List.exists_cons_of_ne_nil hne
  obtain ⟨hfirst, hdot⟩ := hrest first List.mem_cons_self
  have hbegins : ∃ c tail, (Text.dotJoin (first :: more)).toList = c :: tail ∧ c ≠ '.' := by
    obtain ⟨c, cs, hc⟩ := List.exists_cons_of_ne_nil (mt String.toList_eq_nil_iff.mp hfirst)
    have hcdot : c ≠ '.' := by
      rintro rfl
      exact hdot (hc ▸ List.mem_cons_self)
    by_cases hlast : more = []
    · exact ⟨c, cs, by rw [hlast, Text.dotJoin_singleton, hc], hcdot⟩
    · refine ⟨c, cs ++ ".".toList ++ (Text.dotJoin more).toList, ?_, hcdot⟩
      rw [← List.singleton_append, Text.dotJoin_append (by simp) hlast, Text.dotJoin_singleton,
        String.toList_append, String.toList_append, hc]
      rfl
  obtain ⟨c, tail, htext, hc⟩ := hbegins
  unfold dottedSpec
  rw [String.toList_append, String.toList_ofList, List.dropWhile_append_of_pos (by simp), htext,
    List.dropWhile_cons_of_neg (by simpa using hc)]

/-- An import with dots in front goes up from the parts of the module and down by its names. -/
theorem resolveDotImport_eq (hdots : 1 ≤ dots) (hne : rest ≠ []) (hrest : PlainNames rest)
    (module : String) (isPackage : Bool) :
    resolveDotImport (dottedSpec dots rest) module isPackage =
      Text.dotJoin ((Text.nameParts [module]).take ((Text.nameParts [module]).length -
        (if isPackage then dots - 1 else dots)) ++ rest) := by
  have hdrop : (dottedSpec dots rest).toList.dropWhile (· == '.') = (Text.dotJoin rest).toList :=
    dropWhile_dottedSpec hne hrest
  have hcount :
      (dottedSpec dots rest).toList.length - (Text.dotJoin rest).toList.length = dots := by
    unfold dottedSpec
    rw [String.toList_append, String.toList_ofList, List.length_append, List.length_replicate]
    omega
  have hnames : ((Text.fields '.' (Text.dotJoin rest).toList).filter fun step => !step.isEmpty).map
      String.ofList = rest := by
    have hfields : Text.fields '.' (Text.dotJoin rest).toList = rest.map String.toList := by
      have hparts := Text.dotParts_dotJoin hne fun s hs => (hrest s hs).2
      have hback := congrArg (List.map String.toList) hparts
      rw [Text.dotParts, List.map_map] at hback
      simpa [Function.comp_def] using hback
    rw [hfields, List.filter_eq_self.mpr, List.map_map]
    · simp [Function.comp_def]
    · intro step hstep
      obtain ⟨s, hs, rfl⟩ := List.mem_map.mp hstep
      simpa using (hrest s hs).1
  have hbase : ((Text.dotParts module).filter fun step => !step.isEmpty) =
      Text.nameParts [module] := by
    rw [Text.nameParts, List.flatMap_singleton]
  unfold resolveDotImport
  rw [hdrop]
  dsimp only
  rw [hcount, if_neg (by omega), hnames, hbase]

end Resolve

structure ImportsFrom (source : Syntax.Source) (node : Syntax.Node) (dots : Nat)
    (rest : List String) : Prop where
  statement : node.kind ≠ "import_statement"
  written : ∃ module, node.child? "module_name" = some module ∧
    source.text module = dottedSpec dots rest
  dots_pos : 1 ≤ dots
  rest_ne_nil : rest ≠ []
  rest_plain : PlainNames rest

theorem dottedSpec_not_all_dots {dots : Nat} {rest : List String} (hne : rest ≠ [])
    (hrest : PlainNames rest) : (dottedSpec dots rest).toList.all (· == '.') = false := by
  have hdrop : (dottedSpec dots rest).toList.dropWhile (· == '.') = (Text.dotJoin rest).toList :=
    dropWhile_dottedSpec hne hrest
  obtain ⟨first, hfirst⟩ := List.exists_mem_of_ne_nil rest hne
  have hjoin := Text.dotJoin_ne_empty hfirst (hrest first hfirst).1
  rw [Bool.eq_false_iff]
  intro hall
  rw [List.dropWhile_eq_nil_iff.mpr fun c hc => List.all_eq_true.mp hall c hc] at hdrop
  exact hjoin (String.toList_eq_nil_iff.mp hdrop.symm)

/-- A `from` import leads to one name, resolved against the module of its file. -/
theorem ImportsFrom.importNames_eq {source : Syntax.Source} {node : Syntax.Node} {dots : Nat}
    {rest : List String} (h : ImportsFrom source node dots rest) (file : SourceFile) :
    Grammar.Python.importNames source file node =
      [resolveDotImport (dottedSpec dots rest) file.moduleId
        (Grammar.Python.isPackage file.path)] := by
  obtain ⟨module, hmodule, htext⟩ := h.written
  unfold Grammar.Python.importNames
  dsimp only
  rw [if_neg (by simpa using h.statement), hmodule]
  dsimp only
  rw [htext, dottedSpec_not_all_dots h.rest_ne_nil h.rest_plain, Bool.and_false,
    if_neg Bool.false_ne_true]

section Target

variable {p : Path} {dirs rest : List String} {name : String} {dots : Nat}

theorem isPackage_eq (h : p.Leads (dirs ++ [name])) :
    Grammar.Python.isPackage p = (name == "__init__.py") := by
  unfold Grammar.Python.isPackage
  rw [h.fileName?_eq]
  rfl

/-- The names that lie below the directory which some dots mean. -/
def leftBelow (dirs : List String) (name : String) (dots : Nat) : List String :=
  dirs.drop (dirs.length - (dots - 1)) ++ ownName dirs name

theorem packageOf_append_leftBelow (dirs : List String) (name : String) (dots : Nat) :
    packageOf dirs dots ++ leftBelow dirs name dots = dirs ++ ownName dirs name := by
  unfold packageOf leftBelow
  rw [← List.append_assoc, List.take_append_drop]

/-- An import means what lies in the directory of its dots exactly if as many parts are dropped from
the identifier of the importing module as lie below that directory. -/
theorem resolveDotImport_eq_iff (h : p.Leads (dirs ++ [name])) (hdots : 1 ≤ dots)
    (hne : rest ≠ []) (hrest : PlainNames rest) (isPackage : Bool) :
    resolveDotImport (dottedSpec dots rest) (moduleId p) isPackage =
        Text.dotJoin (packageOf dirs dots ++ rest) ↔
      (∀ part ∈ (packageOf dirs dots).flatMap Text.dotParts, part ≠ "") ∧
        ((Text.nameParts (leftBelow dirs name dots)).length =
            (if isPackage then dots - 1 else dots) ∨
          packageOf dirs dots = [] ∧ (Text.nameParts (leftBelow dirs name dots)).length ≤
            (if isPackage then dots - 1 else dots)) := by
  have hbase : Text.nameParts [moduleId p] =
      Text.nameParts (packageOf dirs dots ++ leftBelow dirs name dots) := by
    rw [moduleId_eq h, Text.nameParts_dotJoin (append_ownName_ne_nil dirs name),
      packageOf_append_leftBelow]
  rw [resolveDotImport_eq hdots hne hrest, hbase, ← Text.take_nameParts_eq_iff]
  generalize (if isPackage then dots - 1 else dots) = up
  rw [Text.dotJoin_eq_iff (by simp [hne]) (by simp [hne]), List.flatMap_append,
    List.flatMap_append, List.append_left_inj,
    Text.flatMap_dotParts_of_subset_nameParts (List.take_subset _ _)]

/-- Without dots in the names of the directories and of the file, an import means what lies in the
directory of its dots exactly if the file stands for its directory in both senses or in neither, or
if the dots lead to the root from a file that only its module identifier takes for a directory. -/
theorem resolveDotImport_eq_iff_of_plain (h : p.Leads (dirs ++ [name])) (hdots : 1 ≤ dots)
    (hroot : dots - 1 ≤ dirs.length) (hne : rest ≠ []) (hrest : PlainNames rest)
    (hplain : ∀ s ∈ dirs ++ [Path.stemOf name], '.' ∉ s.toList) :
    resolveDotImport (dottedSpec dots rest) (moduleId p) (name == "__init__.py") =
        Text.dotJoin (packageOf dirs dots ++ rest) ↔
      (name = "__init__.py" → dirs ≠ []) ∧
        (standsForDirectory dirs name = true → name ≠ "__init__.py" →
          packageOf dirs dots = []) := by
  have hnames : ∀ s ∈ dirs ++ [Path.stemOf name], s ≠ "" := by
    intro s hs
    rcases List.mem_append.mp hs with hdir | hstem
    · exact Path.stepName_ne_empty (h.stepName s (List.mem_append_left _ hdir))
    · rw [List.mem_singleton.mp hstem]
      exact Path.stemOf_ne_empty (h.stepName name (List.mem_append_right _ List.mem_cons_self))
  have hkept : ∀ part ∈ (packageOf dirs dots).flatMap Text.dotParts, part ≠ "" := by
    have hsub : packageOf dirs dots ⊆ dirs ++ [Path.stemOf name] :=
      List.Subset.trans (List.take_subset _ _) (List.subset_append_left _ _)
    rw [Text.flatMap_dotParts_of_notMem fun s hs => hplain s (hsub hs)]
    exact fun s hs => hnames s (hsub hs)
  have hlength : (Text.nameParts (leftBelow dirs name dots)).length =
      dots - 1 + (ownName dirs name).length := by
    have hsub : leftBelow dirs name dots ⊆ dirs ++ [Path.stemOf name] := by
      refine List.append_subset.mpr ⟨?_, ?_⟩
      · exact List.Subset.trans (List.drop_subset _ _) (List.subset_append_left _ _)
      · unfold ownName
        split
        · exact List.nil_subset _
        · exact List.subset_append_right _ _
    rw [Text.nameParts_of_plain fun s hs => ⟨hnames s (hsub hs), hplain s (hsub hs)⟩, leftBelow,
      List.length_append, List.length_drop]
    omega
  rw [resolveDotImport_eq_iff h hdots hne hrest, hlength, and_iff_right hkept]
  have hmarker : Path.stemOf "__init__.py" = "__init__" := by decide +kernel
  unfold ownName
  by_cases hinit : name = "__init__.py"
  · have hstands : standsForDirectory dirs name = !dirs.isEmpty := by
      unfold standsForDirectory
      rw [hinit, hmarker]
      rfl
    rw [hstands, hinit]
    cases dirs with
    | nil => simp
    | cons dir dirs => simp
  · rw [beq_false_of_ne hinit]
    cases hstands : standsForDirectory dirs name with
    | false => simp [hinit, Nat.sub_add_cancel hdots]
    | true =>
      have hup : dots - 1 ≠ dots := by omega
      simp [hinit, hup]

end Target

/-- What an import from some names behind dots means. It is what lies in the directory that the dots
mean exactly if as many parts of names lie below this directory as are dropped, one for each dot but
the first, and one more unless the file is called `__init__.py`. Without dots in the names on the
way to the file this fails in two cases only: for an `__init__.py` at the root, and for any other
package marker below a directory unless the dots lead to the root. A package below the directory has
the target as its identifier, and a module has it unless it is itself a package marker. -/
theorem relative_import_target_iff {source : Syntax.Source} {node : Syntax.Node} {dots : Nat}
    {rest dirs : List String} {name : String} {file : SourceFile}
    (himport : ImportsFrom source node dots rest) (hfile : file.path.Leads (dirs ++ [name]))
    (hid : file.moduleId = moduleId file.path) (hroot : dots - 1 ≤ dirs.length) :
    (Grammar.Python.importNames source file node =
        [Text.dotJoin (packageOf dirs dots ++ rest)] ↔
      (∀ part ∈ (packageOf dirs dots).flatMap Text.dotParts, part ≠ "") ∧
        ((Text.nameParts (leftBelow dirs name dots)).length =
            (if name == "__init__.py" then dots - 1 else dots) ∨
          packageOf dirs dots = [] ∧ (Text.nameParts (leftBelow dirs name dots)).length ≤
            (if name == "__init__.py" then dots - 1 else dots))) ∧
    ((∀ s ∈ dirs ++ [Path.stemOf name], '.' ∉ s.toList) →
      (Grammar.Python.importNames source file node =
          [Text.dotJoin (packageOf dirs dots ++ rest)] ↔
        (name = "__init__.py" → dirs ≠ []) ∧
          (standsForDirectory dirs name = true → name ≠ "__init__.py" →
            packageOf dirs dots = []))) ∧
    (∀ p : Path, p.Leads (packageOf dirs dots ++ rest ++ ["__init__.py"]) →
      moduleId p = Text.dotJoin (packageOf dirs dots ++ rest)) ∧
    ∀ (p : Path) (front : List String) (last ext : String), rest = front ++ [last] →
      '.' ∉ ext.toList → p.Leads (packageOf dirs dots ++ front ++ [last ++ "." ++ ext]) →
      (moduleId p = Text.dotJoin (packageOf dirs dots ++ rest) ↔
        last ∉ packageMarkers ∨ packageOf dirs dots ++ front = []) := by
  have htarget : Grammar.Python.importNames source file node =
        [Text.dotJoin (packageOf dirs dots ++ rest)] ↔
      resolveDotImport (dottedSpec dots rest) (moduleId file.path) (name == "__init__.py") =
        Text.dotJoin (packageOf dirs dots ++ rest) := by
    rw [himport.importNames_eq, hid, isPackage_eq hfile, List.singleton_inj]
  refine ⟨?_, ?_, ?_, ?_⟩
  · rw [htarget]
    exact resolveDotImport_eq_iff hfile himport.dots_pos himport.rest_ne_nil himport.rest_plain _
  · intro hplain
    rw [htarget]
    exact resolveDotImport_eq_iff_of_plain hfile himport.dots_pos hroot himport.rest_ne_nil
      himport.rest_plain hplain
  · intro p hp
    have hmarker : Path.stemOf "__init__.py" ∈ packageMarkers := by decide +kernel
    exact moduleId_of_marker (by simp [himport.rest_ne_nil]) hmarker hp
  · rintro p front last ext rfl hext hp
    have hlast := (himport.rest_plain last (List.mem_append_right _ List.mem_cons_self)).1
    rw [← List.append_assoc]
    exact moduleId_eq_concat_iff hlast hext hp

def fromCore : Syntax.Source × Syntax.Node :=
  let node (id : Nat) (kind field : String) (start stop : Nat) (children : List Syntax.Node) :
      Syntax.Node :=
    .mk ⟨id, kind, field, true, start, stop⟩ children
  (.plain "from .core import run\n".toUTF8,
    node 1 "import_from_statement" "" 0 21
      [node 2 "relative_import" "module_name" 5 10
        [node 3 "import_prefix" "" 5 6 [],
          node 4 "dotted_name" "" 6 10 [node 5 "identifier" "" 6 10 []]],
        node 6 "dotted_name" "name" 18 21 [node 7 "identifier" "" 18 21 []]])

theorem fromCore_importsFrom : ImportsFrom fromCore.1 fromCore.2 1 ["core"] where
  statement := by decide
  written := ⟨_, rfl, by decide +kernel⟩
  dots_pos := le_rfl
  rest_ne_nil := by simp
  rest_plain := by decide +kernel

theorem relative_import_target_iff_sibling :
    Grammar.Python.importNames fromCore.1 (.ofPath ⟨"pkg/run.py"⟩ .python 22) fromCore.2 =
      ["pkg.core"] := by
  have hfile : (Path.mk "pkg/run.py").Leads (["pkg"] ++ ["run.py"]) := .inl (by decide +kernel)
  have hid : (SourceFile.ofPath ⟨"pkg/run.py"⟩ .python 22).moduleId = moduleId ⟨"pkg/run.py"⟩ := rfl
  have htarget := (relative_import_target_iff fromCore_importsFrom hfile hid (Nat.zero_le _)).2.1
    (by decide +kernel)
  exact htarget.mpr (by decide +kernel)

/-- In the stub of a package an import of a sibling module means a module outside the package. -/
theorem relative_import_leaves_package : ¬ ∀ (source : Syntax.Source) (node : Syntax.Node)
    (dots : Nat) (rest dirs : List String) (name : String) (file : SourceFile),
    ImportsFrom source node dots rest → file.path.Leads (dirs ++ [name]) →
    file.moduleId = moduleId file.path → dots - 1 ≤ dirs.length →
    Grammar.Python.importNames source file node =
      [Text.dotJoin (packageOf dirs dots ++ rest)] := by
  intro h
  have hfile : (Path.mk "pkg/__init__.pyi").Leads (["pkg"] ++ ["__init__.pyi"]) :=
    .inl (by decide +kernel)
  have htarget := h fromCore.1 fromCore.2 1 ["core"] ["pkg"] "__init__.pyi"
    (.ofPath ⟨"pkg/__init__.pyi"⟩ .python 22) fromCore_importsFrom hfile rfl (Nat.zero_le _)
  exact absurd htarget (by decide +kernel)

end CodeAtlas
