import CodeAtlas.Proofs.Grammar.Declarators
import CodeAtlas.Proofs.Grammar.MemberAccess
import CodeAtlas.Proofs.Grammar.Nesting
/-!
Members that are defined outside their type. The symbol of such a definition has the names of the
one that the body of the type declares if both declarators reach their name and write it alike,
nothing but namespaces and types is declared around the type, and no scope in front of the name has
the arguments of a template (`outside_member_iff`).
-/
namespace CodeAtlas.Grammar.Cpp

open Syntax CFamily

def typeKinds : List String :=
  ["class_specifier", "struct_specifier", "union_specifier"]

def bodyKinds : List String :=
  "field_declaration_list" :: "template_declaration" :: conditionalKinds

/-- A type with a body and the names that it adds to those around it. -/
structure IsType (source : Source) (n : Node) (own : List String) : Prop where
  kind : n.kind ∈ typeKinds
  body : (n.child? "body").isSome = true
  written : ∃ m owners name, n.child? "name" = some m ∧ Declares m owners name true ∧
    (∀ scope ∈ owners, IsOwner source scope ∧ scope.kind ≠ "template_type") ∧
    IsName (source.text name) ∧ own = owners.map (ownerName source) ++ [source.text name]

theorem IsType.of_name {source : Source} {n m : Node} (hkind : n.kind ∈ typeKinds)
    (hbody : (n.child? "body").isSome = true) (hm : n.child? "name" = some m)
    (hname : m.kind ∈ nameKinds) (h : IsName (source.text m)) :
    IsType source n [source.text m] :=
  ⟨hkind, hbody, m, [], m, hm, .name hname, fun _ hscope => absurd hscope List.not_mem_nil, h, rfl⟩

/-- The names of the namespaces and types around a place, the outermost first, and whether nothing
else is declared around it. -/
inductive Around (source : Source) : List Crumb → List String → Bool → Prop
  | file : Around source [] [] true
  | other {crumb : Crumb} {trail : List Crumb} {names : List String} {only : Bool}
      (hkind : crumb.parent.kind ∉ "namespace_definition" :: typeKinds)
      (h : Around source trail names only) :
      Around source (crumb :: trail) names (only &&
        (rules.classify source (rules.scopeAround source trail) ⟨crumb.parent, trail⟩).isNone)
  | unnamed {crumb : Crumb} {trail : List Crumb} {names : List String} {only : Bool}
      (hkind : crumb.parent.kind ∈ "namespace_definition" :: typeKinds)
      (hnone : crumb.parent.child? "name" = none) (h : Around source trail names only) :
      Around source (crumb :: trail) names only
  | named {crumb : Crumb} {trail : List Crumb} {names : List String} {only : Bool} {m : Node}
      (hkind : crumb.parent.kind = "namespace_definition")
      (hm : crumb.parent.child? "name" = some m) (hname : stepsOf (source.text m) ≠ [])
      (h : Around source trail names only) :
      Around source (crumb :: trail) (names ++ stepsOf (source.text m)) only
  | type {crumb : Crumb} {trail : List Crumb} {names own : List String} {only : Bool}
      (htype : IsType source crumb.parent own) (h : Around source trail names only) :
      Around source (crumb :: trail) (names ++ own) only

section Scopes

variable {source : Source} {scope : Scope} {place : Cursor} {trail : List Crumb} {crumb : Crumb}

theorem qualified?_enter (id : Nat) (d : Declaration) :
    (scope.enter id d).qualified? = some d.qualifiedName := rfl

/-- The parts of an owner are those of the scope and those of the owner written in the
declaration. -/
theorem parts_owner? (d : Declared) :
    parts (scope.owner? d) = parts scope.qualified? ++ parts d.qualifier := by
  unfold Scope.owner?
  cases d.qualifier with
  | none => exact (List.append_nil _).symm
  | some q =>
    cases scope.qualified? with
    | none => rfl
    | some outer => simp only [parts_some, Text.dotParts_append_dot]

theorem dotParts_qualifiedName (d : Declared) :
    Text.dotParts (scope.declare d).qualifiedName =
      parts scope.qualified? ++ parts d.qualifier ++ Text.dotParts d.name := by
  rw [← parts_owner?]
  unfold Scope.declare
  dsimp only
  cases scope.owner? d with
  | none => rfl
  | some owner => rw [parts_some, Text.dotParts_append_dot]

theorem scopeAround_cons : rules.scopeAround source (crumb :: trail) =
    rules.scopeInside source (rules.scopeAround source trail) ⟨crumb.parent, trail⟩ := rfl

theorem scopeInside_of_none (h : rules.classify source scope place = none) :
    rules.scopeInside source scope place = scope := by
  unfold scopeInside declaration?
  rw [h]
  rfl

/-- Inside a declaration the scope has its parts behind those of the scope outside. -/
theorem parts_scopeInside {d : Declared} (h : rules.classify source scope place = some d) :
    parts (rules.scopeInside source scope place).qualified? =
      parts scope.qualified? ++ parts d.qualifier ++ Text.dotParts d.name := by
  unfold scopeInside declaration?
  rw [h]
  dsimp only [Option.map_some]
  rw [qualified?_enter, parts_some, dotParts_qualifiedName]

theorem inType_scopeInside {d : Declared} (h : rules.classify source scope place = some d) :
    (rules.scopeInside source scope place).inType = d.kind.isType := by
  unfold scopeInside declaration?
  rw [h]
  rfl

end Scopes

section Classify

variable {source : Source} {scope : Scope} {place : Cursor}

theorem classify_of_body (h : place.node.kind ∈ bodyKinds) :
    rules.classify source scope place = none := by
  have hkinds : ∀ kind ∈ bodyKinds, kind ∉ ["class_specifier", "struct_specifier",
      "union_specifier", "namespace_definition", "alias_declaration", "declaration",
      "function_definition", "enum_specifier", "type_definition", "field_declaration"] := by
    decide
  have hkind := hkinds _ h
  simp only [List.mem_cons, List.not_mem_nil, or_false, not_or] at hkind
  simp [rules, classify, CFamily.classify, hkind]

theorem classify_of_unnamed (h : place.node.kind ∈ "namespace_definition" :: typeKinds)
    (hnone : place.node.child? "name" = none) : rules.classify source scope place = none := by
  simp only [typeKinds, List.mem_cons, List.not_mem_nil, or_false] at h
  rcases h with h | h | h | h <;> simp [rules, classify, h, Source.textIn?, hnone]

theorem classify_of_namespace {m : Node} (h : place.node.kind = "namespace_definition")
    (hm : place.node.child? "name" = some m) : rules.classify source scope place =
      some (.symbol (dotted (source.text m)) .module (place.node.child? "body")) := by
  simp [rules, classify, h, Source.textIn?, hm]

theorem classify_of_member (h : place.node.kind = "field_declaration" ∨
    place.node.kind = "declaration") (hscope : scope.inType = true) :
    rules.classify source scope place =
      (CFamily.declaration? source place.node).map Prod.fst := by
  rcases h with h | h <;> simp [rules, classify, CFamily.classify, h, hscope]

theorem classify_of_function (h : place.node.kind = "function_definition") :
    rules.classify source scope place =
      ((place.node.child? "declarator").bind (declaratorName? source)).map fun (name, owner) =>
        (Declared.symbol name .function (place.node.child? "body")).ownedBy owner := by
  simp [rules, classify, CFamily.classify, h]

@[simp] theorem symbol_name (name : String) (kind : SymbolKind) (body : Option Node) :
    (Declared.symbol name kind body).name = name := rfl

@[simp] theorem plain_name (name : String) (kind : SymbolKind) :
    (Declared.plain name kind).name = name := rfl

@[simp] theorem ownedBy_name (d : Declared) (q : Option String) : (d.ownedBy q).name = d.name := rfl

@[simp] theorem ownedBy_qualifier (d : Declared) (q : Option String) :
    (d.ownedBy q).qualifier = q.filter fun q => !q.isEmpty := rfl

/-- A type is declared with its names. -/
theorem classify_of_type {own : List String} (h : IsType source place.node own) :
    ∃ d, rules.classify source scope place = some d ∧ d.kind = .aggregate ∧
      parts d.qualifier ++ Text.dotParts d.name = own := by
  obtain ⟨m, owners, name, hm, hdeclares, howners, hname, rfl⟩ := h.written
  have hfound : declaratorName? source m = _ := declaratorName?_eq hdeclares
  obtain ⟨body, hbody⟩ := Option.isSome_iff_exists.mp h.body
  have hkind := h.kind
  simp only [typeKinds, List.mem_cons, List.not_mem_nil, or_false] at hkind
  refine ⟨(Declared.symbol (source.text name) .aggregate (some body)).ownedBy
    (ownerText source owners), ?_, rfl, ?_⟩
  · rcases hkind with hkind | hkind | hkind <;>
      simp [rules, classify, hkind, hbody, hm, hfound]
  · have hparts := (ownerNames_eq_iff fun scope hscope => (howners scope hscope).1).mpr
      fun scope hscope => (howners scope hscope).2
    rw [ownedBy_qualifier, ownedBy_name, symbol_name,
      filter_ownerText fun scope hscope => (howners scope hscope).1, ← hparts,
      dotParts_of_isName hname]

end Classify

section Surroundings

/-- The parts of a name are some names, or they are more. -/
structure Covers (only : Bool) (names parts : List String) : Prop where
  eq : only = true → parts = names
  le : names.length ≤ parts.length
  lt : only = false → names.length < parts.length

variable {source : Source} {only : Bool} {names : List String}

theorem Covers.append {own outer : List String} (h : Covers only names outer) :
    Covers only (names ++ own) (outer ++ own) where
  eq honly := by rw [h.eq honly]
  le := by
    have := h.le
    rw [List.length_append, List.length_append]
    omega
  lt hmore := by
    have := h.lt hmore
    rw [List.length_append, List.length_append]
    omega

theorem Covers.more {outer extra : List String} (h : Covers only names outer)
    (hextra : extra ≠ []) : Covers false names (outer ++ extra) := by
  have hle := h.le
  have hpos := List.length_pos_of_ne_nil hextra
  have hlt : names.length < (outer ++ extra).length := by
    rw [List.length_append]
    omega
  exact ⟨fun h => Bool.noConfusion h, hlt.le, fun _ => hlt⟩

/-- Inside a type the scope is that of the type. -/
theorem scopeAround_type {crumb : Crumb} {trail : List Crumb} {own : List String}
    (h : IsType source crumb.parent own) :
    parts (rules.scopeAround source (crumb :: trail)).qualified? =
        parts (rules.scopeAround source trail).qualified? ++ own ∧
      (rules.scopeAround source (crumb :: trail)).inType = true := by
  obtain ⟨d, hclassify, hkind, hown⟩ : ∃ d, rules.classify source
      (rules.scopeAround source trail) ⟨crumb.parent, trail⟩ = some d ∧ d.kind = .aggregate ∧
        parts d.qualifier ++ Text.dotParts d.name = own := classify_of_type h
  rw [scopeAround_cons, parts_scopeInside hclassify, inType_scopeInside hclassify, hkind,
    List.append_assoc, hown]
  exact ⟨rfl, rfl⟩

/-- The scope around a place has the names of the namespaces and types there, and more parts if
something else is declared around it. -/
theorem Around.covers {trail : List Crumb} (h : Around source trail names only) :
    Covers only names (parts (rules.scopeAround source trail).qualified?) := by
  induction h with
  | file => exact ⟨fun _ => rfl, le_rfl, fun h => Bool.noConfusion h⟩
  | @other crumb trail names only hkind h ih =>
    rw [scopeAround_cons]
    cases hclassify : rules.classify source (rules.scopeAround source trail)
        ⟨crumb.parent, trail⟩ with
    | none => rwa [scopeInside_of_none hclassify, Option.isNone_none, Bool.and_true]
    | some d =>
      rw [parts_scopeInside hclassify, Option.isNone_some, Bool.and_false, List.append_assoc]
      refine ih.more fun hnil => ?_
      exact Text.dotParts_ne_nil d.name (List.append_eq_nil_iff.mp hnil).2
  | unnamed hkind hnone h ih =>
    rwa [scopeAround_cons, scopeInside_of_none (classify_of_unnamed hkind hnone)]
  | @named crumb trail names only m hkind hm hname h ih =>
    rw [scopeAround_cons, parts_scopeInside (classify_of_namespace hkind hm), List.append_assoc]
    change Covers only _ (_ ++ ([] ++ Text.dotParts (dotted (source.text m))))
    rw [List.nil_append, dotParts_dotted hname]
    exact ih.append
  | @type crumb trail names own only htype h ih =>
    rw [(scopeAround_type htype).1]
    exact ih.append

/-- A node that declares nothing changes nothing. -/
theorem Around.plain {crumb : Crumb} {trail : List Crumb}
    (hkind : crumb.parent.kind ∉ "namespace_definition" :: typeKinds)
    (hnone : (rules.classify source (rules.scopeAround source trail)
      ⟨crumb.parent, trail⟩).isNone = true)
    (h : Around source trail names only) : Around source (crumb :: trail) names only := by
  have hother := h.other hkind
  rwa [hnone, Bool.and_true] at hother

/-- The lists of members and statements open no scope. -/
theorem scopeAround_body {inner : List Crumb} (h : ∀ crumb ∈ inner, crumb.parent.kind ∈ bodyKinds)
    (outer : List Crumb) :
    rules.scopeAround source (inner ++ outer) = rules.scopeAround source outer := by
  induction inner with
  | nil => rfl
  | cons crumb inner ih =>
    have hnone : rules.classify source (rules.scopeAround source (inner ++ outer))
        ⟨crumb.parent, inner ++ outer⟩ = none := classify_of_body (h crumb List.mem_cons_self)
    rw [List.cons_append, scopeAround_cons, scopeInside_of_none hnone,
      ih fun c hc => h c (List.mem_cons_of_mem crumb hc)]

end Surroundings

/-- A member is declared in the body of a type: the names around it, its name, whether that is
reached, and whether nothing else is declared around the type. -/
structure DeclaredIn (source : Source) (root : Node) (place : Cursor) (names : List String)
    (name : Node) (reached only : Bool) : Prop where
  mem_places : place ∈ root.places
  kind : place.node.kind = "field_declaration" ∨ place.node.kind = "declaration"
  declarator : ∃ n, place.node.child? "declarator" = some n ∧ Declares n [] name reached
  body : ∃ inner crumb trail outer own, place.trail = inner ++ crumb :: trail ∧
    (∀ c ∈ inner, c.parent.kind ∈ bodyKinds) ∧ IsType source crumb.parent own ∧
    Around source trail outer only ∧ names = outer ++ own

/-- A function is defined in a namespace: the names around it, the scopes in front of its name, the
name, and whether that is reached. -/
structure DefinedIn (source : Source) (root : Node) (place : Cursor) (names : List String)
    (owners : List Node) (name : Node) (reached : Bool) : Prop where
  mem_places : place ∈ root.places
  kind : place.node.kind = "function_definition"
  declarator : ∃ n, place.node.child? "declarator" = some n ∧ Declares n owners name reached
  owned : ∀ scope ∈ owners, IsOwner source scope
  around : Around source place.trail names true

def withoutBlanks (s : String) : List Char :=
  s.toList.filter fun c => !Text.isBlank c

/-- A member of a type and its definition outside: the scopes in front of the name lead from the
namespace to the type. -/
structure OutsideMember (source : Source) (root : Node) where
  inside : Cursor
  outside : Cursor
  around : List String
  owners : List Node
  declaredName : Node
  definedName : Node
  declaredReached : Bool
  definedReached : Bool
  only : Bool
  declared : DeclaredIn source root inside (around ++ owners.map (ownerName source)) declaredName
    declaredReached only
  defined : DefinedIn source root outside around owners definedName definedReached
  same : withoutBlanks (source.text declaredName) = withoutBlanks (source.text definedName)

/-- No scope in front of the name has the arguments of a template. -/
def OutsideMember.Plain {source : Source} {root : Node} (p : OutsideMember source root) : Prop :=
  ∀ scope ∈ p.owners, scope.kind ≠ "template_type"

def SymbolAt (source : Source) (path : Path) (root : Node) (place : Cursor) (s : Symbol) : Prop :=
  ∃ e ∈ rules.encounters source root, e.place = place ∧ rules.symbolOf source path e = some s

/-- The definition outside has a symbol with the names of the one in the body. -/
def OutsideMember.Agrees {source : Source} {root : Node} (p : OutsideMember source root)
    (path : Path) : Prop :=
  ∃ s s', SymbolAt source path root p.inside s ∧ SymbolAt source path root p.outside s' ∧
    s'.qualifiedName = s.qualifiedName ∧ s'.parent = s.parent

section Symbols

variable {source : Source} {root : Node} {path : Path} {place : Cursor}

/-- The symbol at a place is what its encounter is read as. -/
theorem symbolAt_iff (hdistinct : (root.subtree.map Node.id).Nodup) (hplace : place ∈ root.places)
    (s : Symbol) : SymbolAt source path root place s ↔
      rules.symbolOf source path (rules.encounterAt source place) = some s := by
  unfold SymbolAt
  rw [encounters_eq hdistinct]
  constructor
  · rintro ⟨e, he, rfl, hs⟩
    obtain ⟨place, -, rfl⟩ := List.mem_map.mp he
    exact hs
  · exact fun hs => ⟨_, List.mem_map_of_mem hplace, rfl, hs⟩

theorem not_symbolAt (hdistinct : (root.subtree.map Node.id).Nodup) (hplace : place ∈ root.places)
    (h : rules.classify source (rules.scopeAround source place.trail) place = none) (s : Symbol) :
    ¬ SymbolAt source path root place s := by
  rw [symbolAt_iff hdistinct hplace]
  unfold symbolOf encounterAt declaration?
  rw [h]
  exact fun hs => nomatch hs

/-- Where a symbol is declared there is one, with the names that it has in its scope. -/
theorem exists_symbolAt (hdistinct : (root.subtree.map Node.id).Nodup)
    (hplace : place ∈ root.places) (path : Path) {d : Declared}
    (h : rules.classify source (rules.scopeAround source place.trail) place = some d)
    (hsymbol : d.scopeOnly = false) : ∃ s, (∀ t, SymbolAt source path root place t ↔ t = s) ∧
      s.qualifiedName = ((rules.scopeAround source place.trail).declare d).qualifiedName ∧
      s.parent = (rules.scopeAround source place.trail).owner? d := by
  obtain ⟨s, hs, hnames⟩ : ∃ s,
      rules.symbolOf source path (rules.encounterAt source place) = some s ∧
        s.qualifiedName = ((rules.scopeAround source place.trail).declare d).qualifiedName ∧
        s.parent = (rules.scopeAround source place.trail).owner? d := by
    unfold symbolOf encounterAt declaration?
    rw [h]
    dsimp only [Option.map_some]
    have hdeclared : ((rules.scopeAround source place.trail).declare d).declared = d := rfl
    rw [hdeclared, hsymbol, if_neg Bool.false_ne_true]
    exact ⟨_, rfl, rfl, rfl⟩
  refine ⟨s, fun t => ?_, hnames⟩
  rw [symbolAt_iff hdistinct hplace, hs, Option.some.injEq, eq_comm]

end Symbols

section Members

variable {source : Source} {root : Node} {place : Cursor} {names : List String} {name : Node}
  {reached only : Bool}

/-- In the body of a type the scope is that of the type. -/
theorem DeclaredIn.covers (h : DeclaredIn source root place names name reached only) :
    Covers only names (parts (rules.scopeAround source place.trail).qualified?) ∧
      (rules.scopeAround source place.trail).inType = true := by
  obtain ⟨inner, crumb, trail, outer, own, htrail, hinner, htype, haround, rfl⟩ := h.body
  rw [htrail, scopeAround_body hinner]
  exact ⟨(haround.type htype).covers, (scopeAround_type htype).2⟩

theorem DeclaredIn.classify_eq (h : DeclaredIn source root place names name reached only) :
    ∃ kind, rules.classify source (rules.scopeAround source place.trail) place =
      if reached then some (.plain (source.text name) kind) else none := by
  obtain ⟨n, hn, hdeclares⟩ := h.declarator
  refine ⟨if declaresFunction n then .function else .variable, ?_⟩
  rw [classify_of_member h.kind h.covers.2, CFamily.declaration?, hn, Option.bind_some,
    declaratorName?_eq hdeclares]
  cases reached <;> rfl

/-- A definition outside its type is a function with the owners that are written before its name. -/
theorem DefinedIn.classify_eq {owners : List Node}
    (h : DefinedIn source root place names owners name reached) :
    ∃ body, rules.classify source (rules.scopeAround source place.trail) place =
      if reached then
        some ⟨source.text name, .function, body, ownerText source owners, false⟩
      else none := by
  obtain ⟨n, hn, hdeclares⟩ := h.declarator
  refine ⟨place.node.child? "body", ?_⟩
  rw [classify_of_function h.kind, hn, Option.bind_some, declaratorName?_eq hdeclares]
  cases reached with
  | false => rfl
  | true =>
    change some (Declared.mk _ _ _ ((ownerText source owners).filter _) _) = _
    rw [filter_ownerText h.owned]
    rfl

/-- Under the same owner the qualified names differ as the names do. -/
theorem qualifiedName_eq_iff {scope scope' : Scope} {d d' : Declared}
    (h : scope'.owner? d' = scope.owner? d) :
    (scope'.declare d').qualifiedName = (scope.declare d).qualifiedName ↔ d'.name = d.name := by
  unfold Scope.declare
  dsimp only
  rw [h]
  cases scope.owner? d with
  | none => exact Iff.rfl
  | some owner => exact String.append_right_inj (owner ++ ".")

/-- The definition outside has the owner of the declaration in the body exactly if nothing but
namespaces and types is around the one and no template arguments are in front of the other. -/
theorem OutsideMember.owner_eq_iff (p : OutsideMember source root)
    (hone : p.only = true ∨ p.Plain) {d d' : Declared} (hd : d.qualifier = none)
    (hd' : d'.qualifier = ownerText source p.owners) :
    (rules.scopeAround source p.outside.trail).owner? d' =
        (rules.scopeAround source p.inside.trail).owner? d ↔ p.only = true ∧ p.Plain := by
  have hcovers := p.declared.covers.1
  have houtside := p.defined.around.covers.eq rfl
  have hplain := ownerNames_eq_iff p.defined.owned
  rw [← parts_injective.eq_iff, parts_owner?, parts_owner?, houtside, hd, hd']
  change p.around ++ parts (ownerText source p.owners) = _ ++ [] ↔ _
  rw [List.append_nil]
  rcases hone with honly | hnone
  · rw [hcovers.eq honly, and_iff_right honly, List.append_cancel_left_eq, eq_comm]
    exact hplain
  · rw [← hplain.mpr hnone, and_iff_left hnone]
    constructor
    · intro heq
      by_contra hmore
      have hlt := hcovers.lt (Bool.eq_false_iff.mpr hmore)
      rw [heq] at hlt
      omega
    · exact fun honly => (hcovers.eq honly).symm

end Members

/-- The definition of a member outside its type has a symbol with the names of the one in the body
exactly if both declarators reach their name, the two write it alike, nothing but namespaces and
types is declared around the member, and no scope in front of the name has the arguments of a
template. (Of the last two at most one may fail.) -/
theorem outside_member_iff {source : Source} {root : Node} (p : OutsideMember source root)
    (path : Path) (hdistinct : (root.subtree.map Node.id).Nodup) (hone : p.only = true ∨ p.Plain) :
    p.Agrees path ↔ p.declaredReached = true ∧ p.definedReached = true ∧
      source.text p.declaredName = source.text p.definedName ∧ p.only = true ∧ p.Plain := by
  obtain ⟨kind, hdeclared⟩ := p.declared.classify_eq
  obtain ⟨body, hdefined⟩ := p.defined.classify_eq
  by_cases hreached : p.declaredReached = true
  case neg =>
    rw [if_neg hreached] at hdeclared
    refine iff_of_false ?_ fun h => hreached h.1
    rintro ⟨s, -, hs, -⟩
    exact not_symbolAt hdistinct p.declared.mem_places hdeclared s hs
  by_cases hreached' : p.definedReached = true
  case neg =>
    rw [if_neg hreached'] at hdefined
    refine iff_of_false ?_ fun h => hreached' h.2.1
    rintro ⟨-, s', -, hs', -⟩
    exact not_symbolAt hdistinct p.defined.mem_places hdefined s' hs'
  rw [if_pos hreached] at hdeclared
  rw [if_pos hreached'] at hdefined
  obtain ⟨s, hs, hname, hparent⟩ :=
    exists_symbolAt hdistinct p.declared.mem_places path hdeclared rfl
  obtain ⟨s', hs', hname', hparent'⟩ :=
    exists_symbolAt hdistinct p.defined.mem_places path hdefined rfl
  have hagrees : p.Agrees path ↔ s'.qualifiedName = s.qualifiedName ∧ s'.parent = s.parent := by
    simp only [OutsideMember.Agrees, hs, hs', exists_and_left, exists_eq_left]
  rw [hagrees, hname, hname', hparent, hparent', and_congr_left qualifiedName_eq_iff,
    p.owner_eq_iff hone rfl rfl, and_iff_right hreached, and_iff_right hreached']
  rw [plain_name]
  exact and_congr_left' eq_comm

/-- Two classes with a member that is defined outside, the second a template:
`class A { void f(); }; void A::f() {}` and
`template <class T> class B { void g(); }; template <class T> void B<T>::g() {}`, each part on a
line of its own. -/
def twoClasses : Source × Node :=
  let node (id : Nat) (kind field : String) (start stop : Nat) (children : List Node) : Node :=
    .mk ⟨id, kind, field, true, start, stop⟩ children
  (.plain ("class A \x7b void f(); \x7d;\nvoid A::f() \x7b\x7d\n" ++
      "template <class T> class B \x7b void g(); \x7d;\n" ++
      "template <class T> void B<T>::g() \x7b\x7d\n").toUTF8,
    node 0 "translation_unit" "" 0 117
      [node 1 "class_specifier" "" 0 21
        [node 2 "type_identifier" "name" 6 7 [],
          node 3 "field_declaration_list" "body" 8 21
            [node 4 "field_declaration" "" 10 19
              [node 5 "primitive_type" "type" 10 14 [],
                node 6 "function_declarator" "declarator" 15 18
                  [node 7 "field_identifier" "declarator" 15 16 [],
                    node 8 "parameter_list" "parameters" 16 18 []]]]],
        node 9 "function_definition" "" 23 37
          [node 10 "primitive_type" "type" 23 27 [],
            node 11 "function_declarator" "declarator" 28 34
              [node 12 "qualified_identifier" "declarator" 28 32
                [node 13 "namespace_identifier" "scope" 28 29 [],
                  node 14 "identifier" "name" 31 32 []],
                node 15 "parameter_list" "parameters" 32 34 []],
            node 16 "compound_statement" "body" 35 37 []],
        node 17 "template_declaration" "" 38 79
          [node 18 "template_parameter_list" "parameters" 47 56
            [node 19 "type_parameter_declaration" "" 48 55
              [node 20 "type_identifier" "" 54 55 []]],
            node 21 "class_specifier" "" 57 78
              [node 22 "type_identifier" "name" 63 64 [],
                node 23 "field_declaration_list" "body" 65 78
                  [node 24 "field_declaration" "" 67 76
                    [node 25 "primitive_type" "type" 67 71 [],
                      node 26 "function_declarator" "declarator" 72 75
                        [node 27 "field_identifier" "declarator" 72 73 [],
                          node 28 "parameter_list" "parameters" 73 75 []]]]]],
        node 29 "template_declaration" "" 80 116
          [node 30 "template_parameter_list" "parameters" 89 98
            [node 31 "type_parameter_declaration" "" 90 97
              [node 32 "type_identifier" "" 96 97 []]],
            node 33 "function_definition" "" 99 116
              [node 34 "primitive_type" "type" 99 103 [],
                node 35 "function_declarator" "declarator" 104 113
                  [node 36 "qualified_identifier" "declarator" 104 111
                    [node 37 "template_type" "scope" 104 108
                      [node 38 "type_identifier" "name" 104 105 [],
                        node 39 "template_argument_list" "arguments" 105 108
                          [node 40 "type_descriptor" "" 106 107
                            [node 41 "type_identifier" "type" 106 107 []]]],
                      node 42 "identifier" "name" 110 111 []],
                    node 43 "parameter_list" "parameters" 111 113 []],
                node 44 "compound_statement" "body" 114 116 []]]])

theorem twoClasses.ids_nodup : (twoClasses.2.subtree.map Node.id).Nodup := by
  decide +kernel

def twoClasses.place (i : Fin 45) : Cursor :=
  twoClasses.2.places.get ⟨i, by
    have hlength : twoClasses.2.places.length = 45 := by decide +kernel
    rw [hlength]
    exact i.isLt⟩

def plainMember : OutsideMember twoClasses.1 twoClasses.2 where
  inside := twoClasses.place 4
  outside := twoClasses.place 9
  around := []
  owners := [(twoClasses.place 13).node]
  declaredName := (twoClasses.place 7).node
  definedName := (twoClasses.place 14).node
  declaredReached := true
  definedReached := true
  only := true
  declared := {
    mem_places := List.get_mem _ _
    kind := .inl rfl
    declarator := ⟨_, rfl, .inner (by decide) rfl (.name (by decide))⟩
    body := ⟨[_], _, _, [], _, rfl, List.forall_mem_singleton.mpr (by decide),
      .of_name (by decide) rfl rfl (by decide) (by decide +kernel),
      .plain (by decide) (by decide +kernel) .file, by decide +kernel⟩ }
  defined := {
    mem_places := List.get_mem _ _
    kind := rfl
    declarator := ⟨_, rfl, .inner (by decide) rfl (.qualified rfl rfl rfl (.name (by decide)))⟩
    owned := List.forall_mem_singleton.mpr ⟨by decide +kernel, by decide⟩
    around := .plain (by decide) (by decide +kernel) .file }
  same := by decide +kernel

theorem outside_member_iff_class : plainMember.Agrees ⟨"a.cpp"⟩ := by
  have hplain : plainMember.Plain := List.forall_mem_singleton.mpr (by decide)
  exact (outside_member_iff plainMember ⟨"a.cpp"⟩ twoClasses.ids_nodup (.inl rfl)).mpr
    ⟨rfl, rfl, by decide +kernel, rfl, hplain⟩

def templateMember : OutsideMember twoClasses.1 twoClasses.2 where
  inside := twoClasses.place 24
  outside := twoClasses.place 33
  around := []
  owners := [(twoClasses.place 37).node]
  declaredName := (twoClasses.place 27).node
  definedName := (twoClasses.place 42).node
  declaredReached := true
  definedReached := true
  only := true
  declared := {
    mem_places := List.get_mem _ _
    kind := .inl rfl
    declarator := ⟨_, rfl, .inner (by decide) rfl (.name (by decide))⟩
    body := ⟨[_], _, _, [], _, rfl, List.forall_mem_singleton.mpr (by decide),
      .of_name (by decide) rfl rfl (by decide) (by decide +kernel),
      .plain (by decide) (by decide +kernel)
        (.plain (by decide) (by decide +kernel) .file), by decide +kernel⟩ }
  defined := {
    mem_places := List.get_mem _ _
    kind := rfl
    declarator := ⟨_, rfl, .inner (by decide) rfl (.qualified rfl rfl rfl (.name (by decide)))⟩
    owned := List.forall_mem_singleton.mpr ⟨by decide +kernel, fun _ => by decide +kernel⟩
    around := .plain (by decide) (by decide +kernel)
      (.plain (by decide) (by decide +kernel) .file) }
  same := by decide +kernel

/-- The definition of a member of a template is read as one of another type. -/
theorem outside_members_disagree : ¬ ∀ (source : Source) (root : Node)
    (p : OutsideMember source root) (path : Path), (root.subtree.map Node.id).Nodup →
    p.Agrees path := by
  intro h
  obtain ⟨s, s', hs, hs', -, hparent⟩ := h _ _ templateMember ⟨"a.cpp"⟩ twoClasses.ids_nodup
  rw [symbolAt_iff twoClasses.ids_nodup templateMember.declared.mem_places] at hs
  rw [symbolAt_iff twoClasses.ids_nodup templateMember.defined.mem_places] at hs'
  have hinside : (rules.symbolOf twoClasses.1 ⟨"a.cpp"⟩
      (rules.encounterAt twoClasses.1 templateMember.inside)).bind Symbol.parent = some "B" := by
    decide +kernel
  have houtside : (rules.symbolOf twoClasses.1 ⟨"a.cpp"⟩
      (rules.encounterAt twoClasses.1 templateMember.outside)).bind Symbol.parent =
        some "B<T>" := by
    decide +kernel
  rw [hs, Option.bind_some] at hinside
  rw [hs', Option.bind_some, hparent, hinside] at houtside
  exact absurd houtside (by decide)

end CodeAtlas.Grammar.Cpp
