import CodeAtlas.Proofs.Grammar.Declarators
/-!
What the declarators of a statement introduce. A declarator introduces a variable unless the
innermost of the forms around its name is that of a function (`Introduces`), and the rules read it
as a variable exactly if they reach its name without any function on the way (`Introduces.holds`).
-/
namespace CodeAtlas.Grammar.CFamily

open Syntax

inductive Form
  | bare
  | object
  | function
deriving DecidableEq

/-- A form with another one around it; the inner one says what is declared. -/
def Form.inside (inner outer : Form) : Form :=
  if inner = .bare then outer else inner

inductive Found
  | nothing
  | value
  | function
deriving DecidableEq

def objectKinds : List String :=
  ["pointer_declarator", "array_declarator", "pointer_type_declarator"]

/-- The names that a declarator introduces, the form around them, and what the rules make of it. -/
inductive Introduces : Node → List Node → Form → Found → Prop
  | name {n : Node} (hkind : n.kind ∈ nameKinds) (hnone : n.child? "declarator" = none) :
      Introduces n [n] .bare .value
  | conversion {n : Node} (hkind : n.kind = "operator_cast") (h : Nameless n) :
      Introduces n [n] .function .nothing
  | bindings {n : Node} (hkind : n.kind = "structured_binding_declarator")
      (hnone : n.child? "declarator" = none) :
      Introduces n (n.namedChildren.filter fun c => c.kind == "identifier") .bare .nothing
  | qualified {n m : Node} {names : List Node} {form : Form} {found : Found}
      (hkind : n.kind = "qualified_identifier") (hnone : n.child? "declarator" = none)
      (hm : n.child? "name" = some m) (h : Introduces m names form found)
      (hfound : found ≠ .function) : Introduces n names form found
  | template {n m : Node} {names : List Node} {form : Form} {found : Found}
      (hkind : n.kind ∈ templateKinds) (hnone : n.child? "declarator" = none)
      (hm : n.child? "name" = some m) (h : Introduces m names form found)
      (hfound : found ≠ .function) : Introduces n names form found
  | grouped {n m : Node} {names : List Node} {form : Form} {found : Found}
      (hkind : n.kind ∈ groupKinds) (hnone : n.child? "declarator" = none) (hm : m ∈ n.children)
      (h : Introduces m names form found) : Introduces n names form .nothing
  | initialised {n m : Node} {names : List Node} {form : Form} {found : Found}
      (hkind : n.kind = "init_declarator") (hm : n.child? "declarator" = some m)
      (h : Introduces m names form found) : Introduces n names form found
  | object {n m : Node} {names : List Node} {form : Form} {found : Found}
      (hkind : n.kind ∈ objectKinds) (hm : n.child? "declarator" = some m)
      (h : Introduces m names form found) : Introduces n names (form.inside .object) found
  | reference {n m : Node} {names : List Node} {form : Form} {found : Found}
      (hkind : n.kind = "reference_declarator") (hm : n.children.find? Node.named = some m)
      (h : Introduces m names form found) : Introduces n names (form.inside .object) found
  | behindComment {n comment m : Node} {names : List Node} {form : Form} {found : Found}
      (hkind : n.kind = "reference_declarator")
      (hcomment : n.children.find? Node.named = some comment) (hleaf : comment.children = [])
      (hcommentKind : comment.kind = "comment") (hm : m ∈ n.children)
      (h : Introduces m names form found) : Introduces n names (form.inside .object) .nothing
  | function {n m : Node} {names : List Node} {form : Form} {found : Found}
      (hkind : n.kind = "function_declarator") (hm : n.child? "declarator" = some m)
      (h : Introduces m names form found) :
      Introduces n names (form.inside .function) (if found = .nothing then .nothing else .function)

section Functions

variable {n m : Node}

theorem declaratorIsFunction_eq (ns : List Node) :
    declaratorIsFunction ns = (ns.find? fun c => c.field == "declarator").any declaresFunction := by
  induction ns with
  | nil => rfl
  | cons n ns ih =>
    rw [declaratorIsFunction, List.find?_cons]
    cases n.field == "declarator" with
    | true => rfl
    | false => exact ih

theorem firstDeclaresFunction_eq (ns : List Node) :
    firstDeclaresFunction ns = (ns.find? Node.named).any declaresFunction := by
  induction ns with
  | nil => rfl
  | cons n ns ih =>
    rw [firstDeclaresFunction, List.find?_cons]
    cases n.named with
    | true => rfl
    | false => exact ih

theorem declaresFunction_of_function (hkind : n.kind = "function_declarator") :
    declaresFunction n = true := by
  obtain ⟨label, children⟩ := n
  rw [declaresFunction]
  exact if_pos (beq_iff_eq.mpr hkind)

theorem declaresFunction_of_reference (hkind : n.kind = "reference_declarator") :
    declaresFunction n = (n.children.find? Node.named).any declaresFunction := by
  obtain ⟨label, children⟩ := n
  change label.kind = _ at hkind
  rw [declaresFunction, hkind, if_neg (by decide), beq_self_eq_true, if_pos rfl,
    firstDeclaresFunction_eq]
  rfl

/-- All other nodes are looked through by the role of a declarator. -/
theorem declaresFunction_of_other
    (hkind : n.kind ∉ ["function_declarator", "reference_declarator"]) :
    declaresFunction n = (n.child? "declarator").any declaresFunction := by
  obtain ⟨label, children⟩ := n
  change label.kind ∉ _ at hkind
  simp only [List.mem_cons, List.not_mem_nil, or_false, not_or] at hkind
  rw [declaresFunction, if_neg (mt beq_iff_eq.mp hkind.1), if_neg (mt beq_iff_eq.mp hkind.2),
    declaratorIsFunction_eq]
  rfl

end Functions

section Rules

variable {source : Source} {n m : Node} {names : List Node} {form : Form} {found : Found}

def Found.Holds (source : Source) (n : Node) (names : List Node) : Found → Prop
  | .nothing => declaratorName? source n = none
  | .value => declaresFunction n = false ∧
      ∃ x owner, names = [x] ∧ declaratorName? source n = some (source.text x, owner)
  | .function => declaresFunction n = true

/-- A declarator that adds nothing to the one inside it shows what that one shows. -/
theorem Found.Holds.outer (h : found.Holds source m names)
    (hname : declaratorName? source n = declaratorName? source m)
    (hfunction : declaresFunction n = declaresFunction m) : found.Holds source n names := by
  cases found with
  | nothing => exact hname.trans h
  | function => exact hfunction.trans h
  | value =>
    obtain ⟨hvariable, x, owner, hnames, hx⟩ := h
    exact ⟨hfunction.trans hvariable, x, owner, hnames, hname.trans hx⟩

section Kinds

variable {kinds : List String}

/-- A declarator of a kind that is read by its role shows what the one in that role shows. -/
theorem Found.Holds.through (h : found.Holds source m names) (hkind : n.kind ∈ kinds)
    (hread : ∀ kind ∈ kinds, kind ∉ readKinds ∧ kind ≠ "function_declarator")
    (hm : n.child? "declarator" = some m) : found.Holds source n names := by
  obtain ⟨hreadKind, hfunction⟩ := hread _ hkind
  have hother : n.kind ∉ ["function_declarator", "reference_declarator"] := by
    intro hmem
    rcases List.mem_cons.mp hmem with heq | hmem
    · exact hfunction heq
    · exact hreadKind (List.mem_singleton.mp hmem ▸ by decide)
  apply h.outer
  · rw [declaratorName?_of_other hreadKind, hm, Option.bind_some]
  · rw [declaresFunction_of_other hother, hm, Option.any_some]

theorem declaratorName?_of_unread (hkind : n.kind ∈ kinds)
    (hread : ∀ kind ∈ kinds, kind ∉ readKinds) (hnone : n.child? "declarator" = none) :
    declaratorName? source n = none := by
  rw [declaratorName?_of_other (hread _ hkind), hnone, Option.bind_none]

theorem declaresFunction_of_plain (hkind : n.kind ∈ kinds)
    (hread : ∀ kind ∈ kinds, kind ∉ ["function_declarator", "reference_declarator"])
    (hnone : n.child? "declarator" = none) : declaresFunction n = false := by
  rw [declaresFunction_of_other (hread _ hkind), hnone, Option.any_none]

end Kinds

/-- The rules make of a declarator what is introduced in the way that they read. -/
theorem Introduces.holds (h : Introduces n names form found) : found.Holds source n names := by
  induction h with
  | name hkind hnone =>
    have hplain := declaresFunction_of_plain hkind (by decide) hnone
    exact ⟨hplain, _, _, rfl, declaratorName?_of_name hkind⟩
  | conversion hkind h => exact declaratorName?_of_nameless h
  | @bindings n hkind hnone =>
    exact declaratorName?_of_unread (List.mem_singleton.mpr hkind) (by decide) hnone
  | @qualified n m names form found hkind hnone hm h hfound ih =>
    have hname : declaratorName? source n = _ := declaratorName?_of_qualified hkind hm
    cases found with
    | function => exact absurd rfl hfound
    | nothing =>
      have ih : declaratorName? source m = none := ih
      exact hname.trans (by rw [ih]; rfl)
    | value =>
      obtain ⟨-, x, owner, hnames, hx⟩ := ih
      rw [hx] at hname
      have hplain := declaresFunction_of_plain (List.mem_singleton.mpr hkind) (by decide) hnone
      exact ⟨hplain, x, _, hnames, hname⟩
  | @template n m names form found hkind hnone hm h hfound ih =>
    have hname : declaratorName? source n = _ := declaratorName?_of_template hkind hm
    cases found with
    | function => exact absurd rfl hfound
    | nothing => exact hname.trans ih
    | value =>
      obtain ⟨-, x, owner, hnames, hx⟩ := ih
      have hplain := declaresFunction_of_plain hkind (by decide) hnone
      exact ⟨hplain, x, owner, hnames, hname.trans hx⟩
  | grouped hkind hnone => exact declaratorName?_of_unread hkind (by decide) hnone
  | initialised hkind hm _ ih => exact ih.through (List.mem_singleton.mpr hkind) (by decide) hm
  | object hkind hm _ ih => exact ih.through hkind (by decide) hm
  | reference hkind hm _ ih =>
    have hfunction := declaresFunction_of_reference hkind
    rw [hm, Option.any_some] at hfunction
    exact ih.outer (declaratorName?_of_reference hkind hm) hfunction
  | @behindComment n comment m names form found hkind hcomment hleaf hcommentKind =>
    have hnone : comment.child? "declarator" = none := by
      rw [Node.child?, hleaf, List.find?_nil]
    have hunread : declaratorName? source comment = none :=
      declaratorName?_of_unread (List.mem_singleton.mpr hcommentKind) (by decide) hnone
    exact (declaratorName?_of_reference hkind hcomment).trans hunread
  | @function n m names form found hkind hm h ih =>
    by_cases hfound : found = .nothing
    · subst hfound
      have ih : declaratorName? source m = none := ih
      have hname : declaratorName? source n = (n.child? "declarator").bind _ :=
        declaratorName?_of_other (notMem_readKinds (by simp [hkind, declaratorKinds]))
      rw [if_pos rfl]
      exact hname.trans (by rw [hm, Option.bind_some, ih])
    · rw [if_neg hfound]
      exact declaresFunction_of_function hkind

/-- A declared function is never read as a variable. -/
theorem Introduces.not_value (h : Introduces n names form found) (hform : form = .function) :
    found ≠ .value := by
  have hinside {form : Form} (h : form.inside .object = .function) : form = .function := by
    unfold Form.inside at h
    split at h
    · cases h
    · exact h
  induction h with
  | name => cases hform
  | conversion => exact Found.noConfusion
  | bindings => exact Found.noConfusion
  | qualified _ _ _ _ _ ih => exact ih hform
  | template _ _ _ _ _ ih => exact ih hform
  | grouped => exact Found.noConfusion
  | initialised _ _ _ ih => exact ih hform
  | object _ _ _ ih => exact ih (hinside hform)
  | reference _ _ _ ih => exact ih (hinside hform)
  | behindComment => exact Found.noConfusion
  | function =>
    split
    · exact Found.noConfusion
    · exact Found.noConfusion

end Rules

end CodeAtlas.Grammar.CFamily
