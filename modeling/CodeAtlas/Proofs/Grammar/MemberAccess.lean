import CodeAtlas.Grammar.Cpp
import CodeAtlas.Proofs.Grammar.Nesting
/-!
The access of members. A label in the body of a type holds for all members behind it, also for those
that stand in a conditional, in a template or in a declaration of their own; without a label it is
the kind of the type that decides (`access`). The rules find the label if the member stands in the
body itself or in one template there, and no conditional in front of it holds a later label
(`member_access_iff`).
-/
namespace CodeAtlas.Grammar.Cpp

open Syntax

def conditionalKinds : List String :=
  ["preproc_if", "preproc_ifdef", "preproc_elif", "preproc_elifdef", "preproc_else"]

mutual
/-- The access labels that a node of a body brings, the last first: itself, or those of the branches
of a conditional. -/
def labelsOf : Node → List Node
  | .mk label children =>
    if label.kind = "access_specifier" then [.mk label children]
    else if conditionalKinds.contains label.kind then labelsAmong children
    else []

def labelsAmong : List Node → List Node
  | [] => []
  | n :: ns => labelsAmong ns ++ labelsOf n
end

structure Membership where
  wrappers : List Node
  labels : List Node
  siblings : List Node
  owner : Node

/-- How the node at the end of a trail is a member of a type, if the nearest body around it is that
of a type. -/
def membership? : List Crumb → Option Membership
  | [] => none
  | crumb :: trail =>
    let labels := crumb.before.flatMap labelsOf
    if crumb.parent.kind = "field_declaration_list" then
      trail.head?.map fun above =>
        ⟨[], labels, crumb.before.filter fun n => n.kind == "access_specifier", above.parent⟩
    else if rules.nesting.contains crumb.parent.kind then none
    else (membership? trail).map fun m =>
      { m with wrappers := crumb.parent :: m.wrappers, labels := labels ++ m.labels }

/-- The access that the nearest of some labels gives, or without one the type itself. -/
def access (source : Source) (labels : List Node) (owner : Node) : Visibility :=
  match labels with
  | label :: _ => accessOf (source.text label)
  | [] => if owner.kind = "class_specifier" then .owner else .everyone

/-- The member stands in the body itself or in one template there. -/
def Membership.Exposed (m : Membership) : Prop :=
  m.wrappers = [] ∨ ∃ t, m.wrappers = [t] ∧ t.kind = "template_declaration"

instance (m : Membership) : Decidable m.Exposed :=
  decidable_of_iff (m.wrappers.length ≤ 1 ∧ ∀ t ∈ m.wrappers, t.kind = "template_declaration") <| by
    obtain ⟨_ | ⟨t, _ | ⟨t', rest⟩⟩, _, _, _⟩ := m <;> simp [Membership.Exposed]

section Rules

variable {source : Source} {place : Cursor} {crumb above : Crumb} {trail : List Crumb}

theorem membership?_of_body (h : crumb.parent.kind = "field_declaration_list") :
    membership? (crumb :: trail) = trail.head?.map fun above =>
      ⟨[], crumb.before.flatMap labelsOf,
        crumb.before.filter fun n => n.kind == "access_specifier", above.parent⟩ := by
  rw [membership?, if_pos h]

theorem exists_membership_of_wrapped (h : crumb.parent.kind ≠ "field_declaration_list")
    {m : Membership} (hm : membership? (crumb :: trail) = some m) :
    ∃ inner, membership? trail = some inner ∧ m.wrappers = crumb.parent :: inner.wrappers ∧
      m.siblings = inner.siblings ∧ m.owner = inner.owner := by
  rw [membership?, if_neg h] at hm
  split at hm
  · cases hm
  · obtain ⟨inner, hinner, rfl⟩ := Option.map_eq_some_iff.mp hm
    exact ⟨inner, hinner, rfl, rfl, rfl⟩

theorem member_of_template (h : crumb.parent.kind = "template_declaration") (n : Node) :
    member ⟨n, crumb :: trail⟩ = ⟨crumb.parent, trail⟩ := by
  unfold member Cursor.parent?
  dsimp only
  rw [h, beq_self_eq_true, if_pos rfl]

theorem member_of_other (h : crumb.parent.kind ≠ "template_declaration") (n : Node) :
    member ⟨n, crumb :: trail⟩ = ⟨n, crumb :: trail⟩ := by
  unfold member Cursor.parent?
  dsimp only
  rw [beq_false_of_ne h, if_neg Bool.false_ne_true]

/-- In a list of members the access is that of the nearest label above, or the default. -/
theorem memberAccess?_of_body (hplace : (member place).trail = crumb :: above :: trail)
    (hbody : crumb.parent.kind = "field_declaration_list") :
    memberAccess? source place = some (access source
      (crumb.before.filter fun n => n.kind == "access_specifier") above.parent) := by
  have hhead : (crumb.before.filter fun n => n.kind == "access_specifier").head? =
      crumb.before.find? fun n => n.kind == "access_specifier" := List.head?_filter
  unfold memberAccess?
  dsimp only
  rw [hplace]
  dsimp only
  rw [hbody, bne_self_eq_false, if_neg Bool.false_ne_true, ← hhead]
  cases crumb.before.filter fun n => n.kind == "access_specifier" with
  | nil => simp [access]
  | cons label labels => rfl

theorem memberAccess?_of_other (hplace : (member place).trail = crumb :: trail)
    (hbody : crumb.parent.kind ≠ "field_declaration_list") : memberAccess? source place = none := by
  unfold memberAccess?
  dsimp only
  rw [hplace]
  dsimp only
  rw [if_pos (by simpa using hbody)]

/-- A member is found in the body by its siblings, or if it is the only thing in a template by those
of the template; in any other place it is taken for no member. -/
theorem memberAccess?_eq {m : Membership} (hm : membership? place.trail = some m) :
    memberAccess? source place =
      if m.Exposed then some (access source m.siblings m.owner) else none := by
  obtain ⟨n, trail⟩ := place
  cases trail with
  | nil => cases hm
  | cons crumb trail =>
    by_cases hbody : crumb.parent.kind = "field_declaration_list"
    · have hplain : crumb.parent.kind ≠ "template_declaration" := by simp [hbody]
      rw [membership?_of_body hbody] at hm
      obtain ⟨above, habove, rfl⟩ := Option.map_eq_some_iff.mp hm
      obtain ⟨rest, rfl⟩ := List.head?_eq_some_iff.mp habove
      rw [if_pos (.inl rfl), memberAccess?_of_body (by rw [member_of_other hplain]) hbody]
    obtain ⟨inner, hinner, hwrappers, hsiblings, howner⟩ := exists_membership_of_wrapped hbody hm
    by_cases htemplate : crumb.parent.kind = "template_declaration"
    · have hplace : (member ⟨n, crumb :: trail⟩).trail = trail := by
        rw [member_of_template htemplate]
      cases trail with
      | nil => cases hinner
      | cons next trail =>
        by_cases hnext : next.parent.kind = "field_declaration_list"
        · rw [membership?_of_body hnext] at hinner
          obtain ⟨above, habove, rfl⟩ := Option.map_eq_some_iff.mp hinner
          obtain ⟨rest, rfl⟩ := List.head?_eq_some_iff.mp habove
          rw [if_pos (.inr ⟨_, hwrappers, htemplate⟩), hsiblings, howner,
            memberAccess?_of_body hplace hnext]
        · obtain ⟨_, -, hmore, -⟩ := exists_membership_of_wrapped hnext hinner
          rw [memberAccess?_of_other hplace hnext, if_neg]
          rintro (hnone | ⟨t, hone, -⟩)
          · simp [hwrappers] at hnone
          · simp [hwrappers, hmore] at hone
    · rw [memberAccess?_of_other (by rw [member_of_other htemplate]) hbody, if_neg]
      rintro (hnone | ⟨t, hone, ht⟩)
      · simp [hwrappers] at hnone
      · rw [hwrappers] at hone
        exact htemplate ((List.cons.inj hone).1 ▸ ht)

/-- The visibility of a symbol is its access, and outside of types follows from `static`. -/
theorem visibility_of_symbolOf {path : Path} {e : Encounter} {s : Symbol}
    (hs : rules.symbolOf source path e = some s) :
    s.visibility = (memberAccess? source e.place).getD
      (if e.scope.atModuleLevel ∧ CFamily.isStatic source e.place.node then .owner
        else .everyone) := by
  unfold symbolOf at hs
  split at hs
  · cases hs
  · rw [Option.ite_none_left_eq_some] at hs
    obtain ⟨-, hs⟩ := hs
    obtain rfl := Option.some.inj hs
    simp only [rules, visibility, CFamily.visibility, Bool.and_eq_true]

end Rules

/-- The visibility of a member. What stands in a body itself, or in one template there, has the
access that the label nearest among its siblings gives, and this is the access that the last label
in front of it gives unless a conditional between them holds a label for another access. All other
members are visible outside (or, where the type has no name, unless they are static at the top of
the file), which is their access only where the last label says so. -/
theorem member_access_iff {source : Source} {path : Path} {e : Encounter} {s : Symbol}
    {m : Membership} (hs : rules.symbolOf source path e = some s)
    (hm : membership? e.place.trail = some m) :
    s.visibility = access source m.labels m.owner ↔
      m.Exposed ∧ access source m.siblings m.owner = access source m.labels m.owner ∨
      ¬ m.Exposed ∧ access source m.labels m.owner =
        if e.scope.atModuleLevel ∧ CFamily.isStatic source e.place.node then .owner
        else .everyone := by
  rw [visibility_of_symbolOf hs, memberAccess?_eq hm]
  by_cases hexposed : m.Exposed
  · rw [if_pos hexposed, Option.getD_some]
    constructor
    · exact fun h => .inl ⟨hexposed, h⟩
    · rintro (⟨-, h⟩ | ⟨hhidden, -⟩)
      · exact h
      · exact absurd hexposed hhidden
  · rw [if_neg hexposed, Option.getD_none]
    constructor
    · exact fun h => .inr ⟨hexposed, h.symm⟩
    · rintro (⟨hshown, -⟩ | ⟨-, h⟩)
      · exact absurd hshown hexposed
      · exact h.symm

/-- A class with a field and a class in it, `class A { int x; class B {}; };`. -/
def nestedClass : Source × Node :=
  let node (id : Nat) (kind field : String) (start stop : Nat) (children : List Node) : Node :=
    .mk ⟨id, kind, field, true, start, stop⟩ children
  (.plain "class A \x7b int x; class B \x7b\x7d; \x7d;\n".toUTF8,
    node 0 "translation_unit" "" 0 32
      [node 1 "class_specifier" "" 0 30
        [node 2 "type_identifier" "name" 6 7 [],
          node 3 "field_declaration_list" "body" 8 30
            [node 4 "field_declaration" "" 10 16
              [node 5 "primitive_type" "type" 10 13 [],
                node 6 "field_identifier" "declarator" 14 15 []],
              node 7 "field_declaration" "" 17 28
                [node 8 "class_specifier" "type" 17 27
                  [node 9 "type_identifier" "name" 23 24 [],
                    node 10 "field_declaration_list" "body" 25 27 []]]]]])

def nestedMembers : Encounter × Encounter :=
  (rules.encounterAt nestedClass.1 (nestedClass.2.places.get ⟨4, by decide⟩),
    rules.encounterAt nestedClass.1 (nestedClass.2.places.get ⟨8, by decide⟩))

theorem member_access_iff_field : ∃ s m,
    rules.symbolOf nestedClass.1 ⟨"a.cpp"⟩ nestedMembers.1 = some s ∧
      membership? nestedMembers.1.place.trail = some m ∧ m.Exposed ∧
      s.visibility = access nestedClass.1 m.labels m.owner := by
  obtain ⟨s, hs⟩ : ∃ s, rules.symbolOf nestedClass.1 ⟨"a.cpp"⟩ nestedMembers.1 = some s :=
    Option.isSome_iff_exists.mp (by decide +kernel)
  obtain ⟨owner, hm⟩ : ∃ owner, membership? nestedMembers.1.place.trail =
      some ⟨[], [], [], owner⟩ := ⟨_, rfl⟩
  have hexposed : Membership.Exposed ⟨[], [], [], owner⟩ := .inl rfl
  exact ⟨s, _, hs, hm, hexposed, (member_access_iff hs hm).mpr (.inl ⟨hexposed, rfl⟩)⟩

/-- The inner class stands in a declaration of its own. The rules take it for no member, so it is
visible outside, although there is no label and the members of a class are its own. -/
theorem members_not_by_labels : ¬ ∀ (source : Source) (path : Path) (root : Node),
    ∀ e ∈ rules.encounters source root, ∀ s m, rules.symbolOf source path e = some s →
      membership? e.place.trail = some m → s.visibility = access source m.labels m.owner := by
  intro h
  have hdistinct : (nestedClass.2.subtree.map Node.id).Nodup := by decide
  have hmet : nestedMembers.2 ∈ rules.encounters nestedClass.1 nestedClass.2 := by
    rw [encounters_eq hdistinct]
    exact List.mem_map_of_mem (List.get_mem ..)
  obtain ⟨s, hs⟩ : ∃ s, rules.symbolOf nestedClass.1 ⟨"a.cpp"⟩ nestedMembers.2 = some s :=
    Option.isSome_iff_exists.mp (by decide +kernel)
  obtain ⟨m, hm⟩ : ∃ m, membership? nestedMembers.2.place.trail = some m :=
    Option.isSome_iff_exists.mp (by decide)
  have hshown : (rules.symbolOf nestedClass.1 ⟨"a.cpp"⟩ nestedMembers.2).map Symbol.visibility =
      some .everyone := by decide +kernel
  have howner : (membership? nestedMembers.2.place.trail).map
      (fun m => access nestedClass.1 m.labels m.owner) = some .owner := by decide +kernel
  rw [hs, Option.map_some, Option.some.injEq] at hshown
  rw [hm, Option.map_some, Option.some.injEq] at howner
  exact absurd (hshown.symm.trans ((h _ _ _ _ hmet s m hs hm).trans howner)) (by decide)

end CodeAtlas.Grammar.Cpp
