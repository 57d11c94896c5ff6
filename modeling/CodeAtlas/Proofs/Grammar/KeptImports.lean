import CodeAtlas.Proofs.Grammar.UsePaths
import CodeAtlas.Registry
/-!
Imports that are kept. An import is lost where nothing is left of any name that it stands for. When
that is so depends on what a language writes in an import (`NamesModule`), and on nothing else
(`import_kept_iff`).
-/
namespace CodeAtlas.Grammar

open Syntax

variable {source : Source} {file : SourceFile}

section Names

variable {α : Type}

theorem exists_name_map {f : α → String} {xs : List α} :
    (∃ name ∈ xs.map f, name ≠ "") ↔ ∃ x ∈ xs, f x ≠ "" := by
  constructor
  · rintro ⟨name, hname, hne⟩
    obtain ⟨x, hx, rfl⟩ := List.mem_map.mp hname
    exact ⟨x, hx, hne⟩
  · rintro ⟨x, hx, hne⟩
    exact ⟨f x, List.mem_map_of_mem hx, hne⟩

theorem exists_name_singleton {name : String} : (∃ s ∈ [name], s ≠ "") ↔ name ≠ "" := by
  constructor
  · rintro ⟨s, hs, hne⟩
    rwa [← List.mem_singleton.mp hs]
  · intro hne
    exact ⟨name, List.mem_cons_self, hne⟩

theorem exists_name_filter {names : List String} :
    (∃ s ∈ names.filter fun s => !s.isEmpty, s ≠ "") ↔ ∃ s ∈ names, s ≠ "" := by
  constructor
  · rintro ⟨s, hs, hne⟩
    exact ⟨s, (List.mem_filter.mp hs).1, hne⟩
  · rintro ⟨s, hs, hne⟩
    exact ⟨s, List.mem_filter.mpr ⟨hs, by simpa using hne⟩, hne⟩

theorem exists_name_toList {o : Option Node} :
    (∃ s ∈ o.toList.map fun n => dotted (source.text n), s ≠ "") ↔
      ∃ n, o = some n ∧ HasStep (source.text n).toList := by
  rw [exists_name_map]
  simp only [Option.mem_toList, dotted_ne_empty_iff]

end Names

namespace Python

def writtenNames (n : Node) : List Node :=
  (n.childrenIn "name").filterMap fun c =>
    if c.kind == "aliased_import" then c.child? "name" else some c

theorem listedNames_eq (n : Node) :
    listedNames source n = (writtenNames n).map fun w => dotted (source.text w) := by
  rw [listedNames, writtenNames, List.map_filterMap]

/-- The import lists what it wants of a package, whose specifier is nothing but dots. -/
def ListsPackage (source : Source) (module : Node) : Prop :=
  module.kind = "relative_import" ∧ OnlyDots (source.text module)

instance (source : Source) (module : Node) : Decidable (ListsPackage source module) :=
  inferInstanceAs (Decidable (_ ∧ _))

/-- A listed module has a name, or the specifier names something. Behind nothing but dots modules
have to be listed: the names in the package, or below the root their own. -/
def NamesModule (source : Source) (file : SourceFile) (n : Node) : Prop :=
  if n.kind = "import_statement" then ∃ w ∈ writtenNames n, HasStep (source.text w).toList
  else
    ∃ module, n.child? "module_name" = some module ∧
      if ListsPackage source module then
        ∃ w ∈ writtenNames n, DotNames (source.text module) file.moduleId (isPackage file.path) ∨
          HasStep (source.text w).toList
      else DotNames (source.text module) file.moduleId (isPackage file.path)

theorem listed_ne_empty_iff (resolved name : String) :
    (if resolved.isEmpty then name else resolved ++ "." ++ name) ≠ "" ↔
      resolved ≠ "" ∨ name ≠ "" := by
  by_cases hresolved : resolved = ""
  · simp [hresolved]
  · simp [hresolved]

/-- An import of Python leads to a name exactly if it names a module. -/
theorem names_iff (n : Node) :
    (∃ name ∈ importNames source file n, name ≠ "") ↔ NamesModule source file n := by
  unfold importNames NamesModule
  dsimp only
  by_cases hstatement : n.kind = "import_statement"
  · rw [if_pos hstatement, if_pos (beq_iff_eq.mpr hstatement), listedNames_eq, exists_name_map]
    simp only [dotted_ne_empty_iff]
  rw [if_neg hstatement, if_neg (mt beq_iff_eq.mp hstatement)]
  cases n.child? "module_name" with
  | none => simp
  | some module =>
    have hdots : (module.kind == "relative_import" &&
        (source.text module).toList.all (· == '.')) = true ↔ ListsPackage source module := by
      rw [Bool.and_eq_true, beq_iff_eq, List.all_eq_true, ListsPackage, OnlyDots]
      simp only [beq_iff_eq]
    simp only [Option.some.injEq, exists_eq_left', hdots]
    by_cases honly : ListsPackage source module
    · rw [if_pos honly, if_pos honly, exists_name_map, listedNames_eq]
      simp only [listed_ne_empty_iff, resolveDotImport_ne_empty_iff, List.mem_map,
        exists_exists_and_eq_and, dotted_ne_empty_iff]
    · rw [if_neg honly, if_neg honly, exists_name_singleton, resolveDotImport_ne_empty_iff]

end Python

def QuotedPathNames (source : Source) (file : SourceFile) (extensions : List String) (n : Node) :
    Prop :=
  unquote (source.text n) ≠ "" ∧ PathNames (unquote (source.text n)) file.path extensions

theorem quoted_names_iff (extensions : List String) (n : Node) :
    (∃ name ∈ (if (unquote (source.text n)).isEmpty then []
        else [resolvePathImport (unquote (source.text n)) file.path extensions]), name ≠ "") ↔
      QuotedPathNames source file extensions n := by
  rw [QuotedPathNames]
  by_cases hempty : unquote (source.text n) = ""
  · simp [hempty]
  · rw [if_neg (mt String.isEmpty_iff.mp hempty), exists_name_singleton,
      resolvePathImport_ne_empty_iff, and_iff_right hempty]

theorem Script.names_iff (n : Node) : (∃ name ∈ Script.importNames source file n, name ≠ "") ↔
    QuotedPathNames source file Script.extensions n := by
  rw [Script.importNames]
  exact quoted_names_iff Script.extensions n

theorem CFamily.names_iff (n : Node) : (∃ name ∈ CFamily.importNames source file n, name ≠ "") ↔
    QuotedPathNames source file CFamily.headerExtensions n := by
  rw [CFamily.importNames]
  exact quoted_names_iff CFamily.headerExtensions n

theorem Go.names_iff (n : Node) : (∃ name ∈ Go.importNames source file n, name ≠ "") ↔
    HasStep (unquote (source.text n)).toList := by
  unfold Go.importNames
  dsimp only
  by_cases hempty : unquote (source.text n) = ""
  · have hnone : ¬ HasStep "".toList := by decide +kernel
    simpa [hempty] using hnone
  · rw [if_neg (mt String.isEmpty_iff.mp hempty), exists_name_singleton, dotted_ne_empty_iff]

namespace Scala

/-- A selector names something: a member, or everything behind a path. -/
def SelectorNames (outer selector : List Char) : Prop :=
  selectorName selector ≠ [] ∧
    (selectorName selector = ['_'] ∨ selectorName selector = ['*'] → HasStep outer)

/-- A clause names something: by one of its selectors, or by its path if it has none. -/
def ClauseNames (clause : List Char) : Prop :=
  match Text.splitOnce? ['\x7b'] (Text.trim clause) with
  | some (outer, selectors) =>
    ∃ s ∈ Text.fields ',' (Text.trimEndWhile (· == '\x7d') selectors), SelectorNames outer s
  | none => HasStep (plainPath (Text.trim clause))

/-- A selector is read as a path exactly if it names something. -/
theorem selectorPath?_iff (outer selector : List Char) :
    (∃ p, selectorPath? (dottedChars outer) selector = some p ∧ p ≠ []) ↔
      SelectorNames outer selector := by
  unfold selectorPath? SelectorNames
  dsimp only
  generalize selectorName selector = name
  by_cases hempty : name = []
  · simp [hempty]
  rw [if_neg (mt List.isEmpty_iff.mp hempty)]
  by_cases hwildcard : name = ['_'] ∨ name = ['*']
  · have houter : dottedChars outer ≠ [] ↔ HasStep outer := join_nameSteps_ne_nil_iff outer
    simp [hempty, hwildcard, houter]
  · simp [hempty, hwildcard]

/-- A clause leads to a path exactly if it names something. -/
theorem clausePaths_iff (clause : List Char) :
    (∃ p ∈ clausePaths clause, p ≠ []) ↔ ClauseNames clause := by
  unfold clausePaths ClauseNames
  dsimp only
  cases Text.splitOnce? ['\x7b'] (Text.trim clause) with
  | none =>
    dsimp only
    rw [← join_nameSteps_ne_nil_iff]
    simp [dottedChars]
  | some cut =>
    obtain ⟨outer, selectors⟩ := cut
    simp only [List.mem_filterMap, ← selectorPath?_iff]
    constructor
    · rintro ⟨p, ⟨s, hs, hp⟩, hne⟩
      exact ⟨s, hs, p, hp, hne⟩
    · rintro ⟨s, hs, p, hp, hne⟩
      exact ⟨p, ⟨s, hs, hp⟩, hne⟩

theorem names_iff (text : String) : (∃ name ∈ importPaths text, name ≠ "") ↔
    ∃ clause ∈ clauses 0 (importBody text.toList), ClauseNames clause := by
  rw [importPaths, exists_name_map]
  simp only [Text.ofList_ne_empty_iff, List.mem_filter, List.mem_flatMap, ← clausePaths_iff]
  constructor
  · rintro ⟨p, ⟨⟨clause, hclause, hp⟩, -⟩, hne⟩
    exact ⟨clause, hclause, p, hp, hne⟩
  · rintro ⟨clause, hclause, p, hp, hne⟩
    exact ⟨p, ⟨⟨clause, hclause, hp⟩, by simpa using hne⟩, hne⟩

end Scala

namespace Rust

def NamesModule (source : Source) (file : SourceFile) (n : Node) : Prop :=
  ∃ path ∈ usePaths source "" n,
    ¬ (fromRoot (Text.dotParts file.moduleId) (Text.dotParts path) = [] ∨
      fromRoot (Text.dotParts file.moduleId) (Text.dotParts path) = [""])

theorem names_iff (n : Node) :
    (∃ name ∈ importNames source file n, name ≠ "") ↔ NamesModule source file n := by
  rw [importNames, exists_name_filter, exists_name_map, NamesModule]
  simp only [anchored_eq, ne_eq, Text.dotJoin_eq_empty_iff]

end Rust

/-- An import names something, by what is written in its language. -/
def NamesModule (source : Source) (file : SourceFile) (n : Node) : Language → Prop
  | .python => Python.NamesModule source file n
  | .rust => Rust.NamesModule source file n
  | .javascript | .typescript => QuotedPathNames source file Script.extensions n
  | .c | .cpp => QuotedPathNames source file CFamily.headerExtensions n
  | .go => HasStep (unquote (source.text n)).toList
  | .java =>
    ∃ c, n.namedChildren.find? (fun c => c.isOneOf ["scoped_identifier", "identifier"]) = some c ∧
      HasStep (source.text c).toList
  | .swift => ∃ c, n.childOfKind? "identifier" = some c ∧ HasStep (source.text c).toList
  | .scala =>
    ∃ clause ∈ Scala.clauses 0 (Scala.importBody (source.text n).toList), Scala.ClauseNames clause
  | _ => False

/-- An import contributes a dependency exactly if it names something. -/
theorem import_kept_iff {g : Grammar} (hg : g ∈ Registry.grammars) {root n : Node}
    (hn : n ∈ importTargets g.imports source root) :
    g.Contributes source file root n ↔ NamesModule source file n g.language := by
  rw [contributes_iff hn]
  simp only [Registry.grammars, List.mem_cons, List.not_mem_nil, or_false] at hg
  -- The ten grammars, in the order of the registry.
  rcases hg with rfl | rfl | rfl | rfl | rfl | rfl | rfl | rfl | rfl | rfl
  · exact Python.names_iff n
  · exact Rust.names_iff n
  · have hnames : Script.javascript.importNames = Script.importNames := by rw [Script.javascript]
    rw [hnames]
    exact Script.names_iff n
  · have hnames : Script.typescript.importNames = Script.importNames := by
      rw [Script.typescript, Script.javascript]
    rw [hnames]
    exact Script.names_iff n
  · have hnames : Go.rules.importNames = Go.importNames := by rw [Go.rules]
    rw [hnames]
    exact Go.names_iff n
  · exact exists_name_toList
  · have hnames : CFamily.rules.importNames = CFamily.importNames := by rw [CFamily.rules]
    rw [hnames]
    exact CFamily.names_iff n
  · have hnames : Cpp.rules.importNames = CFamily.importNames := by rw [Cpp.rules, CFamily.rules]
    rw [hnames]
    exact CFamily.names_iff n
  · exact exists_name_filter.trans exists_name_toList
  · have hnames : Scala.rules.importNames =
        fun source _ n => Scala.importPaths (source.text n) := by
      rw [Scala.rules]
    rw [hnames]
    exact Scala.names_iff (source.text n)

theorem import_kept_iff_core :
    fromCore.2 ∈ importTargets Python.rules.imports fromCore.1 fromCore.2 ∧
    Python.rules.Contributes fromCore.1 (.ofPath ⟨"pkg/run.py"⟩ .python 22) fromCore.2
      fromCore.2 := by
  have hn : fromCore.2 ∈ importTargets Python.rules.imports fromCore.1 fromCore.2 :=
    mem_importTargets.mpr ⟨fromCore.2, List.mem_cons_self, .node "import_from_statement",
      List.mem_cons_of_mem _ List.mem_cons_self, List.mem_cons_self⟩
  refine ⟨hn, (import_kept_iff List.mem_cons_self hn).mpr ⟨_, rfl, ?_⟩⟩
  rw [if_neg (by decide +kernel)]
  decide +kernel

def importOfPackage : Node :=
  .mk ⟨1, "import_from_statement", "", true, 0, 15⟩
    [.mk ⟨2, "relative_import", "module_name", true, 5, 6⟩
      [.mk ⟨3, "import_prefix", "", true, 5, 6⟩ []],
      .mk ⟨4, "wildcard_import", "", true, 14, 15⟩ []]

/-- The import of everything in the package of a file is lost. -/
theorem import_of_package_lost : ¬ ∀ (source : Source) (file : SourceFile) (root n module : Node),
    n ∈ importTargets Python.rules.imports source root → n.child? "module_name" = some module →
    source.text module ≠ "" → Python.rules.Contributes source file root n := by
  intro h
  have hn (source : Source) : importOfPackage ∈ importTargets Python.rules.imports source
      (.mk ⟨0, "module", "", true, 0, 16⟩ [importOfPackage]) :=
    mem_importTargets.mpr ⟨importOfPackage, List.mem_cons_of_mem _ List.mem_cons_self,
      .node "import_from_statement", List.mem_cons_of_mem _ List.mem_cons_self, List.mem_cons_self⟩
  have hkept := h (.plain "from . import *\n".toUTF8) (.ofPath ⟨"pkg/views.py"⟩ .python 16) _ _ _
    (hn _) rfl (by decide +kernel)
  exact absurd ((contributes_iff (hn _)).mp hkept) (by decide +kernel)

end CodeAtlas.Grammar
