import CodeAtlas.Grammar.Script
import CodeAtlas.Proofs.Path.Parent
/-!
Specifiers of files. A specifier that starts in the directory of the importing file leads step by
step to a directory and writes a last name there. Dropping the extension of the specifier is
dropping that of the last name (`fields_dropExtension`), and the steps go where they lead
(`Reaches.walkSteps_eq`).
-/
namespace CodeAtlas

namespace Text

/-- A text is cut at its last separator in one way only. -/
theorem append_last_inj {sep : Char} {front front' back back' : List Char} (hback : sep ∉ back)
    (hback' : sep ∉ back') (h : front ++ sep :: back = front' ++ sep :: back') :
    front = front' ∧ back = back' := by
  have hfields := congrArg (fields sep) h
  rw [fields_append_cons, fields_append_cons, fields_of_notMem hback,
    fields_of_notMem hback'] at hfields
  obtain rfl := List.singleton_inj.mp (List.append_inj_right' hfields rfl)
  exact ⟨List.append_cancel_right h, rfl⟩

/-- The last field of a text can be exchanged. -/
theorem exists_exchange {sep : Char} {s last : List Char} {front : List (List Char)}
    (h : fields sep s = front ++ [last]) :
    ∃ before, s = before ++ last ∧
      ∀ x, sep ∉ x → fields sep (before ++ x) = front ++ [x] := by
  rcases notMem_or_eq_append_last sep s with hnone | ⟨a, b, rfl, hb⟩
  · rw [fields_of_notMem hnone] at h
    obtain ⟨hfront, hlast⟩ := List.append_inj' (h.symm.trans (List.nil_append [s]).symm) rfl
    obtain rfl := List.singleton_inj.mp hlast
    refine ⟨[], rfl, ?_⟩
    intro x hx
    rw [hfront, List.nil_append, fields_of_notMem hx, List.nil_append]
  · rw [fields_append_cons, fields_of_notMem hb] at h
    obtain ⟨hfront, hlast⟩ := List.append_inj' h rfl
    obtain rfl := List.singleton_inj.mp hlast
    refine ⟨a ++ [sep], by simp, ?_⟩
    intro x hx
    rw [List.append_assoc, List.singleton_append, fields_append_cons, fields_of_notMem hx, hfront]

end Text

def EndsAsScript (s : List Char) : Prop :=
  ∃ ext ∈ Grammar.Script.extensions, ∃ stem, s = stem ++ '.' :: ext.toList

instance (s : List Char) : Decidable (EndsAsScript s) :=
  decidable_of_iff (∃ ext ∈ Grammar.Script.extensions,
      (Text.before? ('.' :: ext.toList) s).isSome = true) (by
    unfold EndsAsScript
    simp only [Option.isSome_iff_exists, Text.before?_eq_some_iff])

section Extensions

theorem extension_plain : ∀ ext ∈ Grammar.Script.extensions,
    '.' ∉ ext.toList ∧ '/' ∉ ext.toList ∧ 2 ≤ ext.toList.length := by
  decide +kernel

/-- Of a stem with a script extension the stem is left. -/
theorem dropExtension_append {ext : String} (hext : ext ∈ Grammar.Script.extensions)
    (stem : List Char) :
    dropExtension Grammar.Script.extensions (stem ++ '.' :: ext.toList) = stem := by
  unfold dropExtension
  cases hfind : Grammar.Script.extensions.findSome? fun e =>
      Text.before? ('.' :: e.toList) (stem ++ '.' :: ext.toList) with
  | none =>
    have hnone := List.findSome?_eq_none_iff.mp hfind ext hext
    rw [Text.before?_eq_some_iff.mpr rfl] at hnone
    cases hnone
  | some r =>
    obtain ⟨e, he, hr⟩ := List.exists_of_findSome?_eq_some hfind
    have hcut := Text.append_last_inj (extension_plain ext hext).1 (extension_plain e he).1
      (Text.before?_eq_some_iff.mp hr)
    exact hcut.1.symm

/-- Without a script extension nothing is cut. -/
theorem dropExtension_of_not_script {s : List Char} (h : ¬ EndsAsScript s) :
    dropExtension Grammar.Script.extensions s = s := by
  have hnone : (Grammar.Script.extensions.findSome? fun e =>
      Text.before? ('.' :: e.toList) s) = none := by
    rw [List.findSome?_eq_none_iff]
    intro e he
    by_contra hsome
    obtain ⟨stem, hstem⟩ := Option.ne_none_iff_exists'.mp hsome
    exact h ⟨e, he, stem, Text.before?_eq_some_iff.mp hstem⟩
  rw [dropExtension, hnone]
  rfl

/-- A specifier ends as a script if and only if its last name does. -/
theorem endsAsScript_iff_last {s last : List Char} {front : List (List Char)}
    (h : Text.fields '/' s = front ++ [last]) : EndsAsScript s ↔ EndsAsScript last := by
  obtain ⟨before, rfl, hexchange⟩ := Text.exists_exchange h
  constructor
  · rintro ⟨ext, hext, stem, hs⟩
    have hslash : '/' ∉ '.' :: ext.toList := by
      simpa using (extension_plain ext hext).2.1
    rcases Text.notMem_or_eq_append_last '/' stem with hnone | ⟨a, b, rfl, hb⟩
    · have hall : '/' ∉ before ++ last := by
        rw [hs, List.mem_append]
        exact not_or.mpr ⟨hnone, hslash⟩
      rw [Text.fields_of_notMem hall] at h
      have hlast := List.append_inj_right' ((List.nil_append _).trans h) rfl
      exact ⟨ext, hext, stem, (List.singleton_inj.mp hlast).symm.trans hs⟩
    · have hb' : '/' ∉ b ++ '.' :: ext.toList := by
        rw [List.mem_append]
        exact not_or.mpr ⟨hb, hslash⟩
      rw [hs, List.append_assoc, List.cons_append, Text.fields_append_cons,
        Text.fields_of_notMem hb'] at h
      have hlast := List.append_inj_right' h rfl
      exact ⟨ext, hext, b, (List.singleton_inj.mp hlast).symm⟩
  · rintro ⟨ext, hext, stem, rfl⟩
    exact ⟨ext, hext, before ++ stem, (List.append_assoc _ _ _).symm⟩

/-- Dropping the extension of a specifier drops that of its last name. -/
theorem fields_dropExtension {s stem : List Char} {ext : String} {front : List (List Char)}
    (hext : ext ∈ Grammar.Script.extensions)
    (h : Text.fields '/' s = front ++ [stem ++ '.' :: ext.toList]) :
    Text.fields '/' (dropExtension Grammar.Script.extensions s) = front ++ [stem] := by
  obtain ⟨before, rfl, hexchange⟩ := Text.exists_exchange h
  have hstem : '/' ∉ stem := by
    intro hmem
    have hlast : stem ++ '.' :: ext.toList ∈
        Text.fields '/' (before ++ (stem ++ '.' :: ext.toList)) := by
      rw [h]
      exact List.mem_append_right _ List.mem_cons_self
    exact Text.sep_notMem_of_mem_fields hlast (List.mem_append_left _ hmem)
  rw [← List.append_assoc, dropExtension_append hext]
  exact hexchange stem hstem

end Extensions

/-- Steps lead from one directory to another, and never above the root. -/
inductive Reaches : List String → List (List Char) → List String → Prop where
  | here {dirs} : Reaches dirs [] dirs
  | stay {dirs step rest target} (nowhere : step = [] ∨ step = ['.'])
      (on : Reaches dirs rest target) : Reaches dirs (step :: rest) target
  | up {dirs dir rest target} (on : Reaches dirs rest target) :
      Reaches (dirs ++ [dir]) (['.', '.'] :: rest) target
  | down {dirs name rest target} (isName : StepName name)
      (on : Reaches (dirs ++ [name]) rest target) : Reaches dirs (name.toList :: rest) target

/-- Steps are walked one after the other. -/
theorem walkSteps_append (dirs : List String) (steps more : List (List Char)) :
    walkSteps dirs (steps ++ more) = walkSteps (walkSteps dirs steps) more := by
  induction steps generalizing dirs with
  | nil => rfl
  | cons step steps ih =>
    rw [List.cons_append, walkSteps, walkSteps]
    split
    · exact ih dirs
    · split
      · exact ih _
      · exact ih _

theorem walkSteps_name {name : String} (h : StepName name) (dirs : List String)
    (rest : List (List Char)) :
    walkSteps dirs (name.toList :: rest) = walkSteps (dirs ++ [name]) rest := by
  rw [walkSteps, if_neg (not_or.mpr ⟨h.ne_nil, h.ne_dot⟩), if_neg h.ne_dots, String.ofList_toList]

/-- The steps of a specifier go where they lead. -/
theorem Reaches.walkSteps_eq {dirs target : List String} {steps : List (List Char)}
    (h : Reaches dirs steps target) : walkSteps dirs steps = target := by
  induction h with
  | here => rfl
  | stay nowhere _ ih =>
    rw [walkSteps, if_pos nowhere]
    exact ih
  | up _ ih =>
    rw [walkSteps, if_neg (by simp), if_pos rfl, List.dropLast_concat]
    exact ih
  | down isName _ ih =>
    rw [walkSteps_name isName]
    exact ih

/-- An index file below a directory is left out. -/
def withoutIndex (steps : List String) : List String :=
  if steps.length > 1 && steps.getLast? == some "index" then steps.dropLast else steps

/-- A relative specifier means what its steps lead to, without its extension. -/
theorem resolvePathImport_eq {spec : String} {importer : Path} {here : List String}
    {file : String} (hspec : isRelative spec = true)
    (himporter : importer.components = (here ++ [file]).map .name) (extensions : List String) :
    resolvePathImport spec importer extensions = Text.dotJoin (withoutIndex
      (walkSteps here (Text.fields '/' (dropExtension extensions spec.toList)))) := by
  obtain ⟨q, hq, hcomponents⟩ := Path.components_parent? himporter
  have hsteps : q.steps = here := by
    rw [Path.steps, hcomponents, List.map_map]
    exact List.map_id here
  have hbase : (importer.parent?.map Path.steps).getD [] = here := by
    rw [hq, Option.map_some, hsteps]
    rfl
  unfold resolvePathImport
  rw [hbase]
  dsimp only
  rw [hspec, if_pos rfl]
  rfl

end CodeAtlas
