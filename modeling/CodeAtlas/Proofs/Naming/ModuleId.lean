import CodeAtlas.Proofs.Path.Below
import CodeAtlas.SourceFile
/-!
The identifier of a module by the names on the way to its file: the directories, and behind them the
name of the file without its extension unless the file stands for its directory (`moduleId_eq`).
-/
namespace CodeAtlas

namespace Text

theorem dotParts_append_dot (s t : String) :
    dotParts (s ++ "." ++ t) = dotParts s ++ dotParts t := by
  have hjoin : s ++ "." ++ t = String.ofList (s.toList ++ '.' :: t.toList) := by
    apply String.ext
    rw [String.toList_ofList, String.toList_append, String.toList_append, List.append_assoc]
    rfl
  rw [hjoin, dotParts_ofList_append, String.ofList_toList, String.ofList_toList]

theorem dotJoin_append {names more : List String} (h : names ≠ []) (h' : more ≠ []) :
    dotJoin (names ++ more) = dotJoin names ++ "." ++ dotJoin more :=
  String.intercalate_append_of_ne_nil h h'

theorem dotJoin_singleton (name : String) : dotJoin [name] = name :=
  String.intercalate_singleton

/-- The parts of some names that are joined by dots are the parts of all of them. -/
theorem dotParts_dotJoin_eq_flatMap {names : List String} (hne : names ≠ []) :
    dotParts (dotJoin names) = names.flatMap dotParts := by
  induction names with
  | nil => exact absurd rfl hne
  | cons name names ih =>
    by_cases hlast : names = []
    · rw [hlast, dotJoin_singleton, List.flatMap_singleton]
    · have hsplit : dotJoin (name :: names) = name ++ "." ++ dotJoin names := by
        rw [← List.singleton_append, dotJoin_append (by simp) hlast, dotJoin_singleton]
      rw [hsplit, dotParts_append_dot, ih hlast, List.flatMap_cons]

/-- Names that are joined by dots are equal exactly if they have the same parts. -/
theorem dotJoin_eq_iff {names names' : List String} (h : names ≠ []) (h' : names' ≠ []) :
    dotJoin names = dotJoin names' ↔ names.flatMap dotParts = names'.flatMap dotParts := by
  rw [← dotParts_dotJoin_eq_flatMap h, ← dotParts_dotJoin_eq_flatMap h']
  exact dotParts_injective.eq_iff.symm

theorem dotParts_of_notMem {name : String} (h : '.' ∉ name.toList) : dotParts name = [name] := by
  rw [dotParts, fields_of_notMem h, List.map_singleton, String.ofList_toList]

theorem flatMap_dotParts_of_notMem {names : List String} (h : ∀ s ∈ names, '.' ∉ s.toList) :
    names.flatMap dotParts = names := by
  have hparts : names.flatMap dotParts = names.flatMap fun s => [s] :=
    List.flatMap_congr fun s hs => dotParts_of_notMem (h s hs)
  rw [hparts, List.flatMap_singleton']

/-- One name that is not empty is enough for the text not to be. -/
theorem dotJoin_ne_empty {names : List String} {s : String} (hs : s ∈ names) (hne : s ≠ "") :
    dotJoin names ≠ "" := by
  cases names with
  | nil => cases hs
  | cons name rest =>
    by_cases hlast : rest = []
    · rw [hlast] at hs ⊢
      rw [dotJoin_singleton]
      exact List.mem_singleton.mp hs ▸ hne
    · rw [← List.singleton_append, dotJoin_append (by simp) hlast]
      intro hempty
      have hchars := congrArg String.toList hempty
      simp at hchars

end Text

/-- The path leads down by these names, if need be from a dot. -/
def Path.Leads (p : Path) (names : List String) : Prop :=
  p.components = names.map .name ∨ p.components = .current :: names.map .name

namespace Path

theorem stepName_ne_empty {s : String} (h : StepName s) : s ≠ "" := by
  intro hempty
  exact h.ne_nil (by rw [hempty]; rfl)

theorem stepName_ne_dot {s : String} (h : StepName s) : s ≠ "." := by
  intro hdot
  exact h.ne_dot (by rw [hdot]; rfl)

theorem leads_ofNames {names : List String} (h : ∀ s ∈ names, StepName s) :
    (ofNames names).Leads names :=
  .inl (components_ofNames h)

namespace Leads

variable {p : Path} {names dirs : List String} {name : String}

theorem stepName (h : p.Leads names) : ∀ s ∈ names, StepName s := by
  intro s hs
  have hmem : Component.name s ∈ names.map Component.name := List.mem_map_of_mem hs
  refine stepName_of_mem (p := p) ?_
  rcases h with h | h
  · rw [h]
    exact hmem
  · rw [h]
    exact List.mem_cons_of_mem _ hmem

/-- The steps that count for a module are the names. -/
theorem filter_steps (h : p.Leads names) :
    p.steps.filter (fun s => !s.isEmpty && s != ".") = names := by
  have hnames : (names.map Component.name).map Component.text = names := by
    rw [List.map_map]
    exact List.map_id names
  have hkept : names.filter (fun s => !s.isEmpty && s != ".") = names := by
    rw [List.filter_eq_self]
    intro s hs
    have hstep := h.stepName s hs
    simp [stepName_ne_empty hstep, stepName_ne_dot hstep]
  unfold steps
  rcases h with h | h
  · rw [h, hnames, hkept]
  · rw [h, List.map_cons, hnames, List.filter_cons_of_neg (by decide), hkept]

theorem fileName?_eq (h : p.Leads (dirs ++ [name])) : p.fileName? = some name := by
  unfold fileName?
  rcases h with h | h
  · rw [h, List.map_append, List.map_singleton, List.getLast?_concat]
  · rw [h, List.map_append, List.map_singleton, ← List.cons_append, List.getLast?_concat]

end Leads

theorem stem?_mk {name : String} (h : StepName name) :
    (Path.mk name).stem? = some (stemOf name) := by
  have hleads : (Path.mk name).Leads ([] ++ [name]) := by
    have hone : (ofNames [name]).Leads [name] := leads_ofNames (by simpa using h)
    rwa [ofNames, String.intercalate_singleton] at hone
  rw [stem?, hleads.fileName?_eq]
  rfl

/-- Nothing is left of a name without its extension only if nothing was there. -/
theorem stemOf_ne_empty {name : String} (h : StepName name) : stemOf name ≠ "" := by
  unfold stemOf
  intro hempty
  have hnil : (cutName name.toList).1 = [] := by
    rw [← String.toList_ofList (l := (cutName name.toList).1), hempty]
    rfl
  unfold cutName at hnil
  dsimp only at hnil
  split at hnil
  · split at hnil
    · exact h.ne_nil hnil
    · rename_i stem _ hstem
      rw [List.reverse_eq_nil_iff] at hnil
      rw [hnil] at hstem
      exact hstem rfl
  · exact h.ne_nil hnil

/-- A name with an extension, without it. -/
theorem stemOf_append {stem ext : String} (hstem : stem ≠ "") (hext : '.' ∉ ext.toList) :
    stemOf (stem ++ "." ++ ext) = stem := by
  have hback : (stem ++ "." ++ ext).toList.reverse =
      ext.toList.reverse ++ '.' :: stem.toList.reverse := by
    have hdot : ".".toList = ['.'] := rfl
    rw [String.toList_append, String.toList_append, hdot, List.append_assoc, List.reverse_append,
      List.reverse_append, List.reverse_singleton, List.append_assoc, List.singleton_append]
  have htake : (ext.toList.reverse ++ '.' :: stem.toList.reverse).takeWhile (· != '.') =
      ext.toList.reverse := by
    rw [List.takeWhile_append_of_pos, List.takeWhile_cons_of_neg (by simp), List.append_nil]
    intro c hc
    rw [bne_iff_ne]
    rintro rfl
    exact hext (List.mem_reverse.mp hc)
  have hne : stem.toList.reverse.isEmpty = false := by
    rw [List.isEmpty_eq_false_iff, ne_eq, List.reverse_eq_nil_iff]
    exact mt String.toList_eq_nil_iff.mp hstem
  unfold stemOf cutName
  rw [hback]
  dsimp only
  rw [htake, List.drop_left]
  simp only [hne]
  rw [if_neg Bool.false_ne_true, List.reverse_reverse, String.ofList_toList]

end Path

def standsForDirectory (dirs : List String) (name : String) : Bool :=
  packageMarkers.contains (Path.stemOf name) && !dirs.isEmpty

/-- What a file adds to the names of its directories: its own name without the extension, unless it
stands for its directory. -/
def ownName (dirs : List String) (name : String) : List String :=
  if standsForDirectory dirs name then [] else [Path.stemOf name]

theorem append_ownName_ne_nil (dirs : List String) (name : String) :
    dirs ++ ownName dirs name ≠ [] := by
  unfold ownName standsForDirectory
  cases dirs with
  | nil => simp
  | cons dir dirs => simp

/-- The identifier of a module is made of the names on the way to its file. -/
theorem moduleId_eq {p : Path} {dirs : List String} {name : String}
    (h : p.Leads (dirs ++ [name])) : moduleId p = Text.dotJoin (dirs ++ ownName dirs name) := by
  have hname := h.stepName name (List.mem_append_right _ List.mem_cons_self)
  have hstem := Path.stemOf_ne_empty hname
  have hid : Text.dotJoin (dirs ++ ownName dirs name) ≠ "" := by
    obtain ⟨s, hs⟩ := List.exists_mem_of_ne_nil _ (append_ownName_ne_nil dirs name)
    refine Text.dotJoin_ne_empty hs ?_
    rcases List.mem_append.mp hs with hdir | hown
    · exact Path.stepName_ne_empty (h.stepName s (List.mem_append_left _ hdir))
    · unfold ownName at hown
      split at hown
      · cases hown
      · exact List.mem_singleton.mp hown ▸ hstem
  have hjoin : Text.dotJoin (if packageMarkers.contains (Path.stemOf name) && !dirs.isEmpty then
      dirs else dirs ++ [Path.stemOf name]) = Text.dotJoin (dirs ++ ownName dirs name) := by
    unfold ownName standsForDirectory
    split
    · rw [List.append_nil]
    · rfl
  unfold moduleId
  simp only [h.filter_steps, List.getLast?_concat, Path.stem?_mk hname, List.dropLast_concat,
    Option.getD_some, hjoin, String.isEmpty_iff]
  rw [if_neg hid]

/-- Names joined by dots and the same with one more name are different. -/
theorem Text.dotJoin_concat_ne {names : List String} (hne : names ≠ []) (last : String) :
    Text.dotJoin names ≠ Text.dotJoin (names ++ [last]) := by
  rw [ne_eq, Text.dotJoin_eq_iff hne (by simp), List.flatMap_append, List.flatMap_singleton]
  intro heq
  have hlength := congrArg List.length heq
  have hpos := List.length_pos_of_ne_nil (Text.dotParts_ne_nil last)
  rw [List.length_append] at hlength
  omega

/-- A file gives its module its own name unless it is a package marker below a directory. -/
theorem moduleId_eq_concat_iff {p : Path} {names : List String} {last ext : String}
    (hlast : last ≠ "") (hext : '.' ∉ ext.toList)
    (h : p.Leads (names ++ [last ++ "." ++ ext])) :
    moduleId p = Text.dotJoin (names ++ [last]) ↔ last ∉ packageMarkers ∨ names = [] := by
  rw [moduleId_eq h, ownName, standsForDirectory, Path.stemOf_append hlast hext]
  cases names with
  | nil => simp
  | cons dir dirs =>
    by_cases hmarker : last ∈ packageMarkers
    · simpa [hmarker] using Text.dotJoin_concat_ne (List.cons_ne_nil dir dirs) last
    · simp [hmarker]

/-- A package marker below a directory gives its module the name of the directory. -/
theorem moduleId_of_marker {p : Path} {names : List String} {name : String} (hne : names ≠ [])
    (hmarker : Path.stemOf name ∈ packageMarkers) (h : p.Leads (names ++ [name])) :
    moduleId p = Text.dotJoin names := by
  have hstands : standsForDirectory names name = true := by
    simp [standsForDirectory, hne, hmarker]
  rw [moduleId_eq h, ownName, if_pos hstands, List.append_nil]

end CodeAtlas
