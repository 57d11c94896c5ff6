import CodeAtlas.Grammar.Cpp
import CodeAtlas.Proofs.Naming.PathImports
import CodeAtlas.Proofs.Naming.Steps
/-!
The names of declarators. A declarator declares the name at its inner end, behind the scopes that
are written there (`Declares`). The rules reach that name unless it stands in parentheses, behind
attributes or behind a comment, or is the conversion to a type (`declaratorName?_eq`).
-/
namespace CodeAtlas.Grammar.CFamily

open Syntax

def declaratorKinds : List String :=
  ["function_declarator", "pointer_declarator", "array_declarator", "init_declarator"]

def groupKinds : List String :=
  ["parenthesized_declarator", "attributed_declarator"]

def conversionKinds : List String :=
  ["operator_cast", "abstract_function_declarator", "abstract_pointer_declarator",
    "abstract_reference_declarator", "abstract_array_declarator",
    "abstract_parenthesized_declarator"]

def templateKinds : List String :=
  ["template_function", "template_type"]

inductive Nameless : Node → Prop
  | last {n : Node} (hkind : n.kind ∈ conversionKinds) (hnone : n.child? "declarator" = none) :
      Nameless n
  | inner {n m : Node} (hkind : n.kind ∈ conversionKinds) (hm : n.child? "declarator" = some m)
      (h : Nameless m) : Nameless n

/-- A declarator declares what a node names, behind the scopes written in front of it, the outermost
first; and whether the name is reached by roles and first children. -/
inductive Declares : Node → List Node → Node → Bool → Prop
  | name {n : Node} (hkind : n.kind ∈ nameKinds) : Declares n [] n true
  | conversion {n : Node} (hkind : n.kind = "operator_cast") (h : Nameless n) :
      Declares n [] n false
  | qualified {n scope m name : Node} {owners : List Node} {reached : Bool}
      (hkind : n.kind = "qualified_identifier") (hscope : n.child? "scope" = some scope)
      (hm : n.child? "name" = some m) (h : Declares m owners name reached) :
      Declares n (scope :: owners) name reached
  | global {n m name : Node} {owners : List Node} {reached : Bool}
      (hkind : n.kind = "qualified_identifier") (hscope : n.child? "scope" = none)
      (hm : n.child? "name" = some m) (h : Declares m owners name reached) :
      Declares n owners name reached
  | template {n m name : Node} {owners : List Node} {reached : Bool}
      (hkind : n.kind ∈ templateKinds) (hm : n.child? "name" = some m)
      (h : Declares m owners name reached) : Declares n owners name reached
  | reference {n m name : Node} {owners : List Node} {reached : Bool}
      (hkind : n.kind = "reference_declarator") (hm : n.children.find? Node.named = some m)
      (h : Declares m owners name reached) : Declares n owners name reached
  | behindComment {n comment m name : Node} {owners : List Node} {reached : Bool}
      (hkind : n.kind = "reference_declarator")
      (hcomment : n.children.find? Node.named = some comment) (hleaf : comment.children = [])
      (hcommentKind : comment.kind = "comment") (hm : m ∈ n.children)
      (h : Declares m owners name reached) : Declares n owners name false
  | grouped {n m name : Node} {owners : List Node} {reached : Bool} (hkind : n.kind ∈ groupKinds)
      (hnone : n.child? "declarator" = none) (hm : m ∈ n.children)
      (h : Declares m owners name reached) : Declares n owners name false
  | inner {n m name : Node} {owners : List Node} {reached : Bool}
      (hkind : n.kind ∈ declaratorKinds) (hm : n.child? "declarator" = some m)
      (h : Declares m owners name reached) : Declares n owners name reached

section Rules

variable {source : Source} {n m : Node}

theorem nameIn?_eq (role : String) (ns : List Node) :
    nameIn? source role ns =
      (ns.find? fun c => c.field == role).bind (declaratorName? source) := by
  induction ns with
  | nil => rfl
  | cons n ns ih =>
    rw [nameIn?, List.find?_cons]
    cases n.field == role with
    | true => rfl
    | false => exact ih

theorem firstName?_eq (ns : List Node) :
    firstName? source ns = (ns.find? Node.named).bind (declaratorName? source) := by
  induction ns with
  | nil => rfl
  | cons n ns ih =>
    rw [firstName?, List.find?_cons]
    cases n.named with
    | true => rfl
    | false => exact ih

theorem declaratorName?_of_name (hkind : n.kind ∈ nameKinds) :
    declaratorName? source n = some (source.text n, none) := by
  obtain ⟨label, children⟩ := n
  rw [declaratorName?]
  exact if_pos (List.contains_iff_mem.mpr hkind)

/-- A qualified name is that of its last part, with what stands before as owner. -/
theorem declaratorName?_of_qualified (hkind : n.kind = "qualified_identifier")
    (hm : n.child? "name" = some m) :
    declaratorName? source n = (declaratorName? source m).map fun (name, inner) =>
      (name, joinOwners ((source.textIn? n "scope").map dotted) inner) := by
  obtain ⟨label, children⟩ := n
  change label.kind = _ at hkind
  change children.find? _ = _ at hm
  rw [declaratorName?]
  dsimp only
  rw [hkind, if_neg (by decide), beq_self_eq_true, if_pos rfl, nameIn?_eq, hm]
  rfl

/-- The arguments of a template are no part of its name. -/
theorem declaratorName?_of_template (hkind : n.kind ∈ templateKinds)
    (hm : n.child? "name" = some m) : declaratorName? source n = declaratorName? source m := by
  obtain ⟨label, children⟩ := n
  change label.kind ∈ _ at hkind
  change children.find? _ = _ at hm
  have hname : ∀ kind ∈ templateKinds, nameKinds.contains kind = false := by decide
  have hqualified : ∀ kind ∈ templateKinds, (kind == "qualified_identifier") = false := by decide
  have htemplate : ∀ kind ∈ templateKinds,
      ["template_function", "template_type"].contains kind = true := by decide
  conv_lhs => rw [declaratorName?]
  dsimp only
  rw [hname _ hkind, if_neg Bool.false_ne_true, hqualified _ hkind, if_neg Bool.false_ne_true,
    htemplate _ hkind, if_pos rfl, nameIn?_eq, hm, Option.bind_some]

/-- A reference has the name of what it refers to. -/
theorem declaratorName?_of_reference (hkind : n.kind = "reference_declarator")
    (hm : n.children.find? Node.named = some m) :
    declaratorName? source n = declaratorName? source m := by
  obtain ⟨label, children⟩ := n
  change label.kind = _ at hkind
  change children.find? _ = _ at hm
  conv_lhs => rw [declaratorName?]
  dsimp only
  rw [hkind, if_neg (by decide), if_neg (by decide), if_neg (by decide), beq_self_eq_true,
    if_pos rfl, firstName?_eq, hm, Option.bind_some]

def readKinds : List String :=
  nameKinds ++ templateKinds ++ ["qualified_identifier", "reference_declarator"]

/-- The other declarators have their inner one in a role. -/
theorem declaratorName?_of_other (hkind : n.kind ∉ readKinds) :
    declaratorName? source n = (n.child? "declarator").bind (declaratorName? source) := by
  obtain ⟨label, children⟩ := n
  change label.kind ∉ _ at hkind
  simp only [readKinds, List.mem_append, List.mem_cons, List.not_mem_nil, or_false, not_or] at hkind
  obtain ⟨⟨hname, htemplate⟩, hqualified, hreference⟩ := hkind
  rw [templateKinds] at htemplate
  rw [declaratorName?]
  dsimp only
  rw [if_neg (mt List.contains_iff_mem.mp hname), if_neg (mt beq_iff_eq.mp hqualified),
    if_neg (mt List.contains_iff_mem.mp htemplate), if_neg (mt beq_iff_eq.mp hreference),
    nameIn?_eq]
  rfl

/-- The kinds of declarators around others and of conversions are among them. -/
theorem notMem_readKinds {kind : String}
    (h : kind ∈ declaratorKinds ++ groupKinds ++ conversionKinds ++ ["comment"]) :
    kind ∉ readKinds := by
  revert kind
  decide

theorem declaratorName?_of_nameless (h : Nameless n) : declaratorName? source n = none := by
  have hother {n : Node} (hkind : n.kind ∈ conversionKinds) : n.kind ∉ readKinds :=
    notMem_readKinds (by simp [hkind])
  induction h with
  | last hkind hnone => rw [declaratorName?_of_other (hother hkind), hnone, Option.bind_none]
  | inner hkind hm _ ih => rw [declaratorName?_of_other (hother hkind), hm, Option.bind_some, ih]

def ownerText (source : Source) : List Node → Option String
  | [] => none
  | scope :: owners => joinOwners (some (dotted (source.text scope))) (ownerText source owners)

/-- The rules find the name of a declarator and its owner if the name is reached, and nothing
otherwise. -/
theorem declaratorName?_eq {owners : List Node} {name : Node} {reached : Bool}
    (h : Declares n owners name reached) : declaratorName? source n =
      if reached then some (source.text name, ownerText source owners) else none := by
  induction h with
  | name hkind => exact declaratorName?_of_name hkind
  | conversion _ h => exact declaratorName?_of_nameless h
  | @qualified n scope m name owners reached hkind hscope hm _ ih =>
    rw [declaratorName?_of_qualified hkind hm, ih, Source.textIn?, hscope]
    cases reached <;> rfl
  | @global n m name owners reached hkind hscope hm _ ih =>
    rw [declaratorName?_of_qualified hkind hm, ih, Source.textIn?, hscope]
    cases reached <;> rfl
  | template hkind hm _ ih => rw [declaratorName?_of_template hkind hm, ih]
  | reference hkind hm _ ih => rw [declaratorName?_of_reference hkind hm, ih]
  | @behindComment n comment m name owners reached hkind hcomment hleaf hcommentKind hm _ ih =>
    have hnone : comment.child? "declarator" = none := by
      rw [Node.child?, hleaf, List.find?_nil]
    rw [declaratorName?_of_reference hkind hcomment,
      declaratorName?_of_other (notMem_readKinds (by simp [hcommentKind])), hnone]
    rfl
  | grouped hkind hnone _ _ _ =>
    rw [declaratorName?_of_other (notMem_readKinds (by simp [hkind])), hnone]
    rfl
  | inner hkind hm _ ih =>
    rw [declaratorName?_of_other (notMem_readKinds (by simp [hkind])), hm, Option.bind_some, ih]

end Rules

section Owners

def ownerName (source : Source) (scope : Node) : String :=
  if scope.kind = "template_type" then (source.textIn? scope "name").getD ""
  else source.text scope

/-- A scope in front of a name: it has a name, and a template is written with its arguments. -/
structure IsOwner (source : Source) (scope : Node) : Prop where
  isName : IsName (ownerName source scope)
  arguments : scope.kind = "template_type" → '<' ∈ (source.text scope).toList

def parts (name : Option String) : List String :=
  name.toList.flatMap Text.dotParts

/-- A declarator can be read off its parts. -/
theorem parts_injective : Function.Injective parts := by
  intro name name' h
  have hne (s : String) : parts (some s) ≠ [] := by
    rw [parts, Option.toList_some, List.flatMap_singleton]
    exact Text.dotParts_ne_nil s
  cases name with
  | none =>
    cases name' with
    | none => rfl
    | some s => exact absurd h.symm (hne s)
  | some s =>
    cases name' with
    | none => exact absurd h (hne s)
    | some s' =>
      rw [parts, parts, Option.toList_some, Option.toList_some, List.flatMap_singleton,
        List.flatMap_singleton] at h
      rw [Text.dotParts_injective h]

theorem parts_some (s : String) : parts (some s) = Text.dotParts s := by
  rw [parts, Option.toList_some, List.flatMap_singleton]

theorem parts_joinOwners (outer inner : Option String) :
    parts (joinOwners outer inner) = parts outer ++ parts inner := by
  cases outer with
  | none => cases inner <;> rfl
  | some o =>
    cases inner with
    | none => exact (List.append_nil _).symm
    | some i => rw [joinOwners, parts_some, parts_some, parts_some, Text.dotParts_append_dot]

theorem parts_ownerText (source : Source) (owners : List Node) :
    parts (ownerText source owners) =
      owners.flatMap fun scope => Text.dotParts (dotted (source.text scope)) := by
  induction owners with
  | nil => rfl
  | cons scope owners ih => rw [ownerText, parts_joinOwners, parts_some, ih, List.flatMap_cons]

theorem dotParts_of_isName {name : String} (h : IsName name) : Text.dotParts name = [name] :=
  Text.dotParts_of_notMem h.dot_notMem

/-- What stands in a name besides separators and blanks, stands in its dotted form. -/
theorem mem_dotted {s : String} {c : Char} (hc : c ∈ dotSeparated s.toList)
    (hgap : isGap c = false) : ∃ part ∈ Text.dotParts (dotted s), c ∈ part.toList := by
  have hdot : c ≠ '.' := by
    rintro rfl
    cases hgap
  have hblank : Text.isBlank c = false := by
    rw [isGap, Bool.or_eq_false_iff] at hgap
    exact hgap.2
  obtain ⟨field, hfield, hmem⟩ := Text.exists_mem_fields hc hdot
  have htrim : c ∈ Text.trim field := by
    obtain ⟨lead, trail, hlead, htrail, heq⟩ := Text.exists_eq_trim field
    rw [heq] at hmem
    have hout {pad : List Char} (hpad : ∀ d ∈ pad, Text.isBlank d = true) : c ∉ pad := by
      intro hin
      rw [hpad c hin] at hblank
      cases hblank
    exact ((List.mem_append.mp hmem).resolve_left (hout hlead) |> List.mem_append.mp).resolve_right
      (hout htrail)
  have hstep : Text.trim field ∈ nameSteps s.toList := by
    refine List.mem_filter.mpr ⟨List.mem_map_of_mem hfield, ?_⟩
    cases hnone : Text.trim field with
    | nil => rw [hnone] at htrim; cases htrim
    | cons d rest => rfl
  have hname : String.ofList (Text.trim field) ∈ stepsOf s := List.mem_map_of_mem hstep
  refine ⟨_, ?_, by rwa [String.toList_ofList]⟩
  rw [dotParts_dotted (List.ne_nil_of_mem hname)]
  exact hname

variable {source : Source} {owners : List Node}

theorem IsOwner.angle_mem {scope : Node} (h : IsOwner source scope)
    (hkind : scope.kind = "template_type") :
    ∃ part ∈ Text.dotParts (dotted (source.text scope)), '<' ∈ part.toList :=
  mem_dotted (mem_dotSeparated (h.arguments hkind) (by decide)) rfl

theorem IsOwner.dotted_eq {scope : Node} (h : IsOwner source scope)
    (hkind : scope.kind ≠ "template_type") :
    dotted (source.text scope) = ownerName source scope := by
  have htext : ownerName source scope = source.text scope := if_neg hkind
  rw [← htext, h.isName.dotted_eq]

/-- An owner is not empty. -/
theorem filter_ownerText (h : ∀ scope ∈ owners, IsOwner source scope) :
    (ownerText source owners).filter (fun q => !q.isEmpty) = ownerText source owners := by
  cases owners with
  | nil => rfl
  | cons scope owners =>
    have hscope := h scope List.mem_cons_self
    have hne : dotted (source.text scope) ≠ "" := by
      by_cases hkind : scope.kind = "template_type"
      · intro hempty
        obtain ⟨part, hpart, hangle⟩ := hscope.angle_mem hkind
        rw [hempty] at hpart
        obtain rfl := List.mem_singleton.mp hpart
        cases hangle
      · rw [hscope.dotted_eq hkind]
        exact hscope.isName.1
    rw [ownerText]
    cases ownerText source owners with
    | none => simp [joinOwners, hne]
    | some inner => simp [joinOwners, hne]

/-- The scopes in front of a name give its owner by their names exactly if none of them has the
arguments of a template. -/
theorem ownerNames_eq_iff (h : ∀ scope ∈ owners, IsOwner source scope) :
    owners.map (ownerName source) = parts (ownerText source owners) ↔
      ∀ scope ∈ owners, scope.kind ≠ "template_type" := by
  rw [parts_ownerText]
  constructor
  · intro heq scope hscope hkind
    obtain ⟨part, hpart, hmem⟩ := (h scope hscope).angle_mem hkind
    have hname : part ∈ owners.map (ownerName source) := by
      rw [heq]
      exact List.mem_flatMap.mpr ⟨scope, hscope, hpart⟩
    obtain ⟨owner, howner, rfl⟩ := List.mem_map.mp hname
    exact (isNameChar_spec ((h owner howner).isName.2 _ hmem)).2.2.2.2.2.2 rfl
  · intro hplain
    rw [← List.flatMap_singleton' (owners.map (ownerName source)), List.flatMap_map]
    refine List.flatMap_congr fun scope hscope => ?_
    have howner := h scope hscope
    rw [howner.dotted_eq (hplain scope hscope), dotParts_of_isName howner.isName]

end Owners

end CodeAtlas.Grammar.CFamily
