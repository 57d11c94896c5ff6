import CodeAtlas.Grammar.Cpp
import CodeAtlas.Grammar.Go
import CodeAtlas.Grammar.Java
import CodeAtlas.Grammar.Python
import CodeAtlas.Grammar.Rust
import CodeAtlas.Grammar.Scala
import CodeAtlas.Grammar.Script
import CodeAtlas.Grammar.Swift
import CodeAtlas.Proofs.Grammar.Heritage
import CodeAtlas.Proofs.Syntax.Places
/-!
The supertypes of a declaration. For each language, what its inheritance clause is and which nodes
of it are types, names and arguments (`heritage`), where the search for names stops (`searchStops`),
which arguments it looks into all the same (`overlooked`) and which types it leaves out (`unread`).
The supertypes that are reported are the types of the clause exactly if these have names without
arguments, no name stands in an overlooked argument and no type is left out (`supertypes_iff`). The
search in the bounds of a Rust trait stops nowhere, so that it takes type arguments for supertypes
(`bound_argument_reported`).
-/
namespace CodeAtlas.Grammar

open Syntax

section Tables

/-- A clause whose names, types and arguments are told by their kinds, and arguments also by their
roles; a name is a type, and so is what wraps it with its arguments. -/
def Heritage.ofKinds (clauses : List Node) (names wrappers arguments roles : List String)
    (target : Node → String) : Heritage where
  clauses
  type n := n.isOneOf (names ++ wrappers)
  name n := n.isOneOf names
  argument n := n.isOneOf arguments || roles.contains n.field
  target

def Java.clauses (n : Node) : List Node :=
  if n.isOneOf typeKinds then (n.child? "superclass").toList ++ (n.child? "interfaces").toList
  else if n.kind == "interface_declaration" then (n.childOfKind? "extends_interfaces").toList
  else []

def Java.heritage (source : Source) (n : Node) : Heritage :=
  .ofKinds (clauses n) ["type_identifier", "scoped_type_identifier"] ["generic_type"]
    ["type_arguments", "annotation"] [] fun n => dotted (source.text n)

def Cpp.heritage (source : Source) (n : Node) : Heritage :=
  .ofKinds (n.childOfKind? "base_class_clause").toList ["type_identifier", "qualified_identifier"]
    ["template_type"] ["template_argument_list", "attribute_declaration"] []
    fun n => dotted (source.text n)

def Script.clauses (typed : Bool) (n : Node) : List Node :=
  if typed && n.kind == "interface_declaration" then (n.childOfKind? "extends_type_clause").toList
  else if n.isOneOf ["class_declaration", "class", "abstract_class_declaration"] then
    (n.childOfKind? "class_heritage").toList
  else []

def Script.heritage (typed : Bool) (source : Source) (n : Node) : Heritage :=
  .ofKinds (clauses typed n)
    ["identifier", "type_identifier", "member_expression", "nested_type_identifier"]
    ["generic_type"] ["type_arguments", "arguments"] [] fun n => dotted (source.text n)

/-- The types of a Swift clause stand one by one in the declaration. -/
def Swift.heritage (source : Source) (n : Node) (d : Declared) : Heritage :=
  .ofKinds
    (if d.kind.isType then n.children.filter fun c => c.kind == "inheritance_specifier" else [])
    ["type_identifier"] ["user_type"] ["type_arguments"] [] source.text

def Scala.heritage (source : Source) (n : Node) (d : Declared) : Heritage :=
  .ofKinds (if d.kind.isType then (n.childOfKind? "extends_clause").toList else [])
    ["type_identifier", "stable_type_identifier"] ["generic_type"]
    ["type_arguments", "arguments", "annotation"] [] fun n => dotted (source.text n)

def Go.clauses (n : Node) : List Node :=
  match n.child? "type" with
  | none => []
  | some type =>
    if n.kind == "type_spec" && type.kind == "interface_type" then
      type.namedChildren.filter fun c => c.kind == "type_elem"
    else []

def Go.heritage (source : Source) (n : Node) : Heritage :=
  .ofKinds (clauses n) typeKinds ["generic_type"] ["type_arguments"] []
    fun n => dotted (source.text n)

/-- The bounds of a trait. What a bound by a kind of function takes and gives are its arguments. -/
def Rust.boundHeritage (source : Source) (n : Node) : Heritage :=
  .ofKinds (if n.kind == "trait_item" then (n.child? "bounds").toList else [])
    typeKinds ["generic_type"] ["type_arguments"] ["parameters", "return_type"]
    fun n => dotted (source.text n)

def Rust.nameRoles : List String := ["trait", "type", "name"]

/-- Whether what a node holds leads away from the name of a trait: its path and its arguments. -/
def Rust.leadsAside (n : Node) : Bool :=
  !nameRoles.contains n.field

/-- The trait of an implementation, which goes by its last name. -/
def Rust.traitHeritage (source : Source) (n : Node) : Heritage where
  clauses := (n.child? "trait").toList
  type m := m.isOneOf ["type_identifier", "identifier", "scoped_type_identifier", "generic_type"]
  name m := m.isOneOf ["type_identifier", "identifier"]
  argument := leadsAside
  target m := dotted (source.text m)

def Python.bases (source : Source) (n : Node) : List Node :=
  ((n.child? "superclasses").toList.flatMap Node.namedChildren).filter
    fun b => dotted (source.text b) != "object"

/-- A base is a name, maybe with arguments in brackets; anything else is no base but an argument of
the definition. -/
def Python.heritage (source : Source) (n : Node) : Heritage where
  clauses := bases source n
  type m := m.isOneOf (nameKinds ++ ["subscript"])
  name m := m.isOneOf nameKinds
  argument m := !m.isOneOf (nameKinds ++ ["subscript"]) || m.field == "subscript"
  target m := dotted (source.text m)

def heritage (language : Language) (source : Source) (n : Node) (d : Declared) : Heritage :=
  match language with
  | .java => Java.heritage source n
  | .cpp => Cpp.heritage source n
  | .javascript => Script.heritage false source n
  | .typescript => Script.heritage true source n
  | .swift => Swift.heritage source n d
  | .scala => Scala.heritage source n d
  | .go => Go.heritage source n
  | .rust =>
    if n.kind == "impl_item" then Rust.traitHeritage source n else Rust.boundHeritage source n
  | .python => Python.heritage source n
  | _ => .ofKinds [] [] [] [] [] source.text

/-- The nodes that the search for the names of supertypes does not look into. -/
def searchStops (language : Language) (n : Node) : Node → Bool :=
  match language with
  | .java | .swift | .scala => (·.isOneOf ["type_arguments"])
  | .cpp => (·.isOneOf ["template_argument_list"])
  | .javascript | .typescript => (·.isOneOf ["type_arguments", "arguments"])
  | .rust => if n.kind == "impl_item" then Rust.leadsAside else (·.isOneOf [])
  | .python => fun m => !m.isOneOf Python.nameKinds
  | _ => (·.isOneOf [])

/-- The arguments that the search for the names of supertypes looks into. -/
def overlooked (language : Language) (n : Node) : Node → Bool :=
  match language with
  | .java => (·.isOneOf ["annotation"])
  | .cpp => (·.isOneOf ["attribute_declaration"])
  | .scala => (·.isOneOf ["arguments", "annotation"])
  | .go => (·.isOneOf ["type_arguments"])
  | .rust =>
    if n.kind == "impl_item" then fun _ => false
    else fun m => m.isOneOf ["type_arguments"] || ["parameters", "return_type"].contains m.field
  | _ => fun _ => false

/-- The types that the search for the names of supertypes leaves out: bases with brackets. -/
def unread (language : Language) : Node → Bool :=
  match language with
  | .python => (·.isOneOf ["subscript"])
  | _ => fun _ => false

def supertypeGrammars : List Grammar :=
  [Python.rules, Rust.rules, Script.javascript, Script.typescript, Go.rules, Java.rules, Cpp.rules,
    Swift.rules, Scala.rules]

end Tables

section Kinds

variable {names wrappers arguments roles stops : List String} {target : Node → String}
  {source : Source} {n : Node}

/-- No type of such a clause is left out, since a search goes below everything that is no stop. -/
theorem Heritage.ofKinds_lists_iff (clauses : List Node) {overlooked : Node → Bool}
    (hargument : ∀ m : Node, (m.isOneOf arguments || roles.contains m.field) =
      (m.isOneOf stops || overlooked m)) :
    let h := ofKinds clauses names wrappers arguments roles target
    h.Lists ((clauses.flatMap (Node.search (·.isOneOf names) (·.isOneOf stops))).map target) ↔
      h.IsRead (·.isOneOf stops) overlooked fun _ => false := by
  intro h
  have hstop (m : Node) (hm : (h.name m || m.isOneOf stops) = true) :
      (h.type m || h.argument m) = true := by
    rw [Bool.or_eq_true] at hm ⊢
    refine hm.imp (fun hname => ?_) fun hkind => ?_
    · exact Node.isOneOf_append.trans (Bool.or_eq_true_iff.mpr (.inl hname))
    · exact (hargument m).trans (Bool.or_eq_true_iff.mpr (.inl hkind))
  rw [isRead_iff_of_whole fun _ _ => rfl]
  exact lists_iff_clear hstop (funext hargument)

/-- Nodes with their names are listed by these names. -/
theorem map_fst_flatMap {found : Node → List Node} {pairs : Node → List (String × Node)}
    (h : ∀ c, pairs c = (found c).map fun n => (target n, n)) (clauses : List Node) :
    (clauses.flatMap pairs).map Prod.fst = (clauses.flatMap found).map target := by
  rw [List.map_flatMap, List.map_flatMap]
  refine List.flatMap_congr fun c _ => ?_
  rw [h c, List.map_map]
  rfl

namespace Java

theorem typeNames_eq (c : Node) : typeNames source c =
    (c.search (·.isOneOf ["type_identifier", "scoped_type_identifier"])
      (·.isOneOf ["type_arguments"])).map fun n => (dotted (source.text n), n) := by
  rw [← Node.filter_outermost_kind]
  rfl

theorem supertypes_eq (d : Declared) :
    supertypes source n d = (clauses n).flatMap (typeNames source) := by
  unfold supertypes clauses
  split
  · rw [List.flatMap_append]
  · split <;> rfl

theorem lists_iff (d : Declared) :
    (heritage source n).Lists ((supertypes source n d).map Prod.fst) ↔
      (heritage source n).IsRead (·.isOneOf ["type_arguments"]) (·.isOneOf ["annotation"])
        fun _ => false := by
  rw [supertypes_eq, map_fst_flatMap typeNames_eq]
  exact Heritage.ofKinds_lists_iff (clauses n) (by simp [Node.isOneOf])

end Java

namespace Cpp

def baseNames (source : Source) (clause : Node) : List (String × Node) :=
  ((clause.outermost ["type_identifier", "qualified_identifier", "template_argument_list"]).filter
    fun n => n.kind != "template_argument_list").map fun n => (dotted (source.text n), n)

theorem baseNames_eq (c : Node) : baseNames source c =
    (c.search (·.isOneOf ["type_identifier", "qualified_identifier"])
      (·.isOneOf ["template_argument_list"])).map fun n => (dotted (source.text n), n) := by
  rw [← Node.filter_outermost_kind]
  rfl

theorem supertypes_eq (d : Declared) : supertypes source n d =
    (n.childOfKind? "base_class_clause").toList.flatMap (baseNames source) := by
  unfold supertypes
  cases n.childOfKind? "base_class_clause" with
  | none => rfl
  | some clause => exact (List.flatMap_singleton ..).symm

theorem lists_iff (d : Declared) :
    (heritage source n).Lists ((supertypes source n d).map Prod.fst) ↔
      (heritage source n).IsRead (·.isOneOf ["template_argument_list"])
        (·.isOneOf ["attribute_declaration"]) fun _ => false := by
  rw [supertypes_eq, map_fst_flatMap baseNames_eq]
  exact Heritage.ofKinds_lists_iff _ (by simp [Node.isOneOf])

end Cpp

namespace Script

theorem heritageNames_eq (c : Node) : heritageNames source c =
    (c.search
      (·.isOneOf ["identifier", "type_identifier", "member_expression", "nested_type_identifier"])
      (·.isOneOf ["type_arguments", "arguments"])).map fun n => (dotted (source.text n), n) := by
  rw [← Node.filter_outermost]
  rfl

theorem supertypes_eq (d : Declared) :
    supertypes source n d = (clauses false n).flatMap (heritageNames source) := by
  unfold supertypes clauses
  rw [Bool.false_and, if_neg Bool.false_ne_true]
  split <;> rfl

theorem supertypesTyped_eq (d : Declared) :
    supertypesTyped source n d = (clauses true n).flatMap (heritageNames source) := by
  unfold supertypesTyped supertypes clauses
  rw [Bool.true_and]
  split
  · rfl
  · split <;> rfl

theorem lists_iff (d : Declared) :
    (heritage false source n).Lists ((supertypes source n d).map Prod.fst) ↔
      (heritage false source n).IsRead (·.isOneOf ["type_arguments", "arguments"])
        (fun _ => false) fun _ => false := by
  rw [supertypes_eq, map_fst_flatMap heritageNames_eq]
  exact Heritage.ofKinds_lists_iff (clauses false n) (by simp)

theorem lists_iff_typed (d : Declared) :
    (heritage true source n).Lists ((supertypesTyped source n d).map Prod.fst) ↔
      (heritage true source n).IsRead (·.isOneOf ["type_arguments", "arguments"])
        (fun _ => false) fun _ => false := by
  rw [supertypesTyped_eq, map_fst_flatMap heritageNames_eq]
  exact Heritage.ofKinds_lists_iff (clauses true n) (by simp)

end Script

namespace Swift

theorem typeNames_eq (c : Node) : typeNames source c =
    (c.search (·.isOneOf ["type_identifier"]) (·.isOneOf ["type_arguments"])).map
      fun n => (source.text n, n) := by
  rw [← Node.filter_outermost_kind]
  rfl

theorem lists_iff (d : Declared) :
    (heritage source n d).Lists ((supertypes source n d).map Prod.fst) ↔
      (heritage source n d).IsRead (·.isOneOf ["type_arguments"]) (fun _ => false)
        fun _ => false := by
  have hsupertypes : supertypes source n d =
      (heritage source n d).clauses.flatMap (typeNames source) := by
    unfold supertypes heritage Heritage.ofKinds
    split <;> rfl
  rw [hsupertypes, map_fst_flatMap typeNames_eq]
  exact Heritage.ofKinds_lists_iff _ (by simp)

end Swift

namespace Scala

theorem typeNames_eq (c : Node) : typeNames source c =
    (c.search (·.isOneOf ["type_identifier", "stable_type_identifier"])
      (·.isOneOf ["type_arguments"])).map fun n => (dotted (source.text n), n) := by
  rw [← Node.filter_outermost_kind]
  rfl

theorem lists_iff (d : Declared) :
    (heritage source n d).Lists ((supertypes source n d).map Prod.fst) ↔
      (heritage source n d).IsRead (·.isOneOf ["type_arguments"])
        (·.isOneOf ["arguments", "annotation"]) fun _ => false := by
  have hsupertypes : supertypes source n d =
      (heritage source n d).clauses.flatMap (typeNames source) := by
    unfold supertypes heritage Heritage.ofKinds
    split <;> rfl
  rw [hsupertypes, map_fst_flatMap typeNames_eq]
  exact Heritage.ofKinds_lists_iff _ (by simp [Node.isOneOf])

end Scala

namespace Go

theorem typeNames_eq (c : Node) : typeNames source c =
    (c.search (·.isOneOf typeKinds) (·.isOneOf [])).map fun n => (dotted (source.text n), n) := by
  rw [← Node.outermost_eq_search]
  rfl

theorem supertypes_eq (d : Declared) :
    supertypes source n d = (clauses n).flatMap (typeNames source) := by
  unfold supertypes clauses
  cases n.child? "type" with
  | none => rfl
  | some type =>
    dsimp only
    split <;> rfl

theorem lists_iff (d : Declared) :
    (heritage source n).Lists ((supertypes source n d).map Prod.fst) ↔
      (heritage source n).IsRead (·.isOneOf []) (·.isOneOf ["type_arguments"])
        fun _ => false := by
  rw [supertypes_eq, map_fst_flatMap typeNames_eq]
  exact Heritage.ofKinds_lists_iff (clauses n) (by simp [Node.isOneOf])

end Go

namespace Rust

theorem typeNames_eq (c : Node) : typeNames source c =
    (c.search (·.isOneOf typeKinds) (·.isOneOf [])).map fun n => (dotted (source.text n), n) := by
  rw [← Node.outermost_eq_search]
  rfl

theorem supertypes_of_bounds (hkind : n.kind ≠ "impl_item") (d : Declared) :
    supertypes source n d = (boundHeritage source n).clauses.flatMap (typeNames source) := by
  unfold supertypes boundHeritage Heritage.ofKinds
  split
  · exact absurd ‹_› hkind
  · rename_i hitem
    rw [if_pos (beq_iff_eq.mpr hitem)]
  · rename_i hother
    rw [if_neg (mt beq_iff_eq.mp hother)]
    rfl

theorem bound_lists_iff (hkind : n.kind ≠ "impl_item") (d : Declared) :
    (boundHeritage source n).Lists ((supertypes source n d).map Prod.fst) ↔
      (boundHeritage source n).IsRead (·.isOneOf [])
        (fun m => m.isOneOf ["type_arguments"] || ["parameters", "return_type"].contains m.field)
        fun _ => false := by
  rw [supertypes_of_bounds hkind, map_fst_flatMap typeNames_eq]
  exact Heritage.ofKinds_lists_iff _ (by simp [Node.isOneOf])

end Rust

end Kinds

section Implementations

namespace Rust

/-- The trait of an implementation: a name, maybe with a path in front of it and with arguments. -/
inductive TraitName : Node → Prop
  | bare {n : Node} (hkind : n.isOneOf ["type_identifier", "identifier"] = true) : TraitName n
  | behind {n last : Node} (hkind : n.kind = "scoped_type_identifier")
      (hlast : (n.children.filter fun c => !leadsAside c) = [last]) (hrole : last.field = "name")
      (hname : last.isOneOf ["type_identifier", "identifier"] = true) : TraitName n
  | applied {n inner : Node} (hkind : n.kind = "generic_type")
      (hinner : (n.children.filter fun c => !leadsAside c) = [inner]) (hrole : inner.field = "type")
      (h : TraitName inner) : TraitName n

variable {source : Source} {n : Node}

theorem leadsAside_eq_false {role : String} (hrole : n.field = role) (hmem : role ∈ nameRoles) :
    leadsAside n = false := by
  rw [leadsAside, hrole, List.contains_iff_mem.mpr hmem]
  rfl

theorem typeNameIn_eq (role : String) (ns : List Node) : typeNameIn source role ns =
    ((ns.find? fun c => c.field == role).map (typeName source)).getD "" := by
  induction ns with
  | nil => rfl
  | cons n ns ih =>
    rw [typeNameIn, List.find?_cons]
    cases n.field == role with
    | true => rfl
    | false => exact ih

/-- The child in a role is the only child, where the search skips the others. -/
theorem find?_of_filter {ns : List Node} {m : Node} {role : String}
    (h : (ns.filter fun c => !leadsAside c) = [m]) (hrole : m.field = role)
    (hmem : role ∈ nameRoles) : (ns.find? fun c => c.field == role) = some m := by
  have hfound : (ns.filter fun c => !leadsAside c).find? (fun c => c.field == role) = some m := by
    rw [h, List.find?_cons_of_pos (by simpa using hrole)]
  rw [List.find?_filter] at hfound
  rw [← hfound]
  refine congrArg (List.find? · ns) (funext fun c => ?_)
  cases hc : c.field == role with
  | false => simp
  | true => simp [leadsAside_eq_false (beq_iff_eq.mp hc) hmem]

/-- Where the search skips all children but one, it finds what it finds in that one. -/
theorem search_of_filter {name : Node → Bool} {m : Node} (hname : name n = false)
    (hrole : leadsAside n = false) (h : (n.children.filter fun c => !leadsAside c) = [m]) :
    n.search name leadsAside = m.search name leadsAside := by
  have hkept : (n.children.filter fun c => !leadsAside c).flatMap (Node.search name leadsAside) =
      n.children.flatMap (Node.search name leadsAside) := by
    apply Pieces.flatMap_filter
    intro c _ hc
    rw [Bool.not_eq_false'] at hc
    exact Node.search_of_stop hc
  rw [Node.search_of_other hname hrole, ← hkept, h, List.flatMap_singleton]

/-- The name that an implementation goes by is the one found in its trait. -/
theorem TraitName.search_eq (source : Source) (h : TraitName n) (hrole : leadsAside n = false) :
    ∃ name, n.search (·.isOneOf ["type_identifier", "identifier"]) leadsAside = [name] ∧
      typeName source n = source.text name := by
  -- The rules go down by the first child in a role, the search by all children that do not lead
  -- aside; there is one of these, so that both go the same way.
  induction h with
  | @bare n hkind =>
    refine ⟨n, Node.search_of_name hkind hrole, ?_⟩
    obtain ⟨label, children⟩ := n
    have hcases : label.kind = "type_identifier" ∨ label.kind = "identifier" := by
      simpa [Node.isOneOf, Node.kind, Node.label] using hkind
    rw [typeName]
    rcases hcases with hcase | hcase <;> simp [hcase]
  | @behind n last hkind hlast hlastRole hname =>
    have hother : n.isOneOf ["type_identifier", "identifier"] = false := by
      simp [Node.isOneOf, hkind]
    have haside := leadsAside_eq_false hlastRole (by simp [nameRoles])
    refine ⟨last, ?_, ?_⟩
    · exact (search_of_filter hother hrole hlast).trans (Node.search_of_name hname haside)
    have hfind := find?_of_filter hlast hlastRole (by simp [nameRoles])
    obtain ⟨label, children⟩ := n
    have hlabel : label.kind = "scoped_type_identifier" := hkind
    rw [typeName, if_neg (by simp [hlabel]), if_pos (by simp [hlabel])]
    rw [Node.children] at hfind
    rw [hfind]
    rfl
  | @applied n inner hkind hinner hinnerRole _ ih =>
    have hother : n.isOneOf ["type_identifier", "identifier"] = false := by
      simp [Node.isOneOf, hkind]
    have haside := leadsAside_eq_false hinnerRole (by simp [nameRoles])
    obtain ⟨name, hsearch, htext⟩ := ih haside
    refine ⟨name, (search_of_filter hother hrole hinner).trans hsearch, ?_⟩
    have hfind := find?_of_filter hinner hinnerRole (by simp [nameRoles])
    obtain ⟨label, children⟩ := n
    have hlabel : label.kind = "generic_type" := hkind
    rw [typeName, if_pos (by simp [hlabel]), typeNameIn_eq]
    rw [Node.children] at hfind
    rw [hfind]
    exact htext

theorem supertypes_of_trait (hkind : n.kind = "impl_item") (d : Declared) :
    supertypes source n d =
      (n.child? "trait").toList.map fun t => (dotted (typeName source t), t) := by
  unfold supertypes
  split
  · rfl
  · rename_i htrait
    rw [hkind] at htrait
    exact absurd htrait (by decide)
  · contradiction

/-- The supertype of an impl block is the name found in its trait. -/
theorem trait_targets_eq (hkind : n.kind = "impl_item")
    (htrait : ∀ t ∈ n.child? "trait", TraitName t) (d : Declared) :
    (supertypes source n d).map Prod.fst = ((n.child? "trait").toList.flatMap (Node.search
      (·.isOneOf ["type_identifier", "identifier"]) leadsAside)).map
        fun m => dotted (source.text m) := by
  rw [supertypes_of_trait hkind]
  cases hchild : n.child? "trait" with
  | none => rfl
  | some t =>
    have hrole : t.field = "trait" := by
      simpa using List.find?_some hchild
    obtain ⟨name, hsearch, htext⟩ :=
      (htrait t hchild).search_eq source (leadsAside_eq_false hrole (by simp [nameRoles]))
    rw [Option.toList_some, List.flatMap_singleton, hsearch]
    simp [htext]

/-- The trait of an impl block is listed exactly if it has one name that is free of arguments. -/
theorem trait_lists_iff (hkind : n.kind = "impl_item")
    (htrait : ∀ t ∈ n.child? "trait", TraitName t) (d : Declared) :
    (traitHeritage source n).Lists ((supertypes source n d).map Prod.fst) ↔
      (traitHeritage source n).IsRead leadsAside (fun _ => false) fun _ => false := by
  rw [trait_targets_eq hkind htrait, Heritage.isRead_iff_of_whole fun _ _ => rfl]
  apply Heritage.lists_iff_clear
  · intro m hm
    rw [Bool.or_eq_true] at hm ⊢
    refine hm.imp_left fun hname => ?_
    have hcases : m.kind = "type_identifier" ∨ m.kind = "identifier" := by
      simpa [traitHeritage, Node.isOneOf] using hname
    rcases hcases with hcase | hcase <;> simp [traitHeritage, Node.isOneOf, hcase]
  · exact funext fun m => (Bool.or_false _).symm

end Rust

end Implementations

section Bases

namespace Python

variable {source : Source} {n : Node}

theorem search_base (b : Node) :
    b.search (·.isOneOf nameKinds) (fun m => !m.isOneOf nameKinds) =
      if b.isOneOf nameKinds then [b] else [] := by
  split
  · rename_i hname
    exact Node.search_of_name hname (by simpa using hname)
  · rename_i hname
    exact Node.search_of_stop (by simpa using hname)

theorem flatMap_search_base (l : List Node) :
    l.flatMap (Node.search (·.isOneOf nameKinds) fun m => !m.isOneOf nameKinds) =
      l.filter (·.isOneOf nameKinds) := by
  induction l with
  | nil => rfl
  | cons b l ih =>
    rw [List.flatMap_cons, ih, search_base, List.filter_cons]
    split <;> rfl

theorem map_fst_filter (target : Node → String) (keep : Node → Bool) (name : String)
    (l : List Node) :
    (((l.filter keep).map fun n => (target n, n)).filter fun (t, _) => t != name).map Prod.fst =
      ((l.filter fun n => target n != name).filter keep).map target := by
  rw [List.filter_map, List.map_map, List.filter_comm]
  rfl

/-- The supertypes of a Python class are the names that its bases hold. -/
theorem targets_eq (d : Declared) : (supertypes source n d).map Prod.fst =
    ((bases source n).flatMap (Node.search (·.isOneOf nameKinds)
      fun m => !m.isOneOf nameKinds)).map fun m => dotted (source.text m) := by
  -- The rules leave out the common base behind the search, the clause before it.
  rw [flatMap_search_base]
  unfold supertypes bases
  cases n.child? "superclasses" with
  | none => rfl
  | some superclasses =>
    rw [Option.toList_some, List.flatMap_singleton]
    exact map_fst_filter _ _ _ _

theorem pieces_holds (m : Node) :
    ((heritage source n).type m || (heritage source n).argument m) = true := by
  unfold heritage
  dsimp only
  cases m.isOneOf (nameKinds ++ ["subscript"]) <;> rfl

/-- Everything in a base is a type or an argument, so the bases are the pieces of the clause. -/
theorem mem_bases_of_mem_pieces {p : Node} (hp : p ∈ (heritage source n).pieces) :
    p ∈ bases source n := by
  obtain ⟨b, hb, hp⟩ := List.mem_flatMap.mp hp
  rw [Node.topmost_of_holds (p := fun m => _ || _) (pieces_holds b), List.mem_singleton] at hp
  exact hp ▸ hb

theorem argument_of_name {p : Node} (hname : p.isOneOf nameKinds = true)
    (hrole : p.field ≠ "subscript") : (heritage source n).argument p = false := by
  have htype : p.isOneOf (nameKinds ++ ["subscript"]) = true := by
    rw [Node.isOneOf_append, hname, Bool.true_or]
  simp [heritage, htype, hrole]

/-- A base that is a name and no argument in brackets is read by itself. -/
theorem namesIn_of_name {p : Node} (hname : p.isOneOf nameKinds = true)
    (hrole : p.field ≠ "subscript") : (heritage source n).namesIn p = [p] :=
  Node.search_of_name hname (argument_of_name hname hrole)

theorem subscript_of_name {p : Node} (hname : p.isOneOf nameKinds = true) :
    p.isOneOf ["subscript"] = false := by
  have hkind : p.kind ∈ nameKinds := List.contains_iff_mem.mp hname
  rw [Node.isOneOf_singleton, beq_eq_false_iff_ne]
  intro hsubscript
  rw [hsubscript] at hkind
  exact absurd hkind (by decide)

/-- A base that is neither a name nor has brackets is no type. -/
theorem argument_of_other {p : Node} (hname : p.isOneOf nameKinds = false)
    (hbrackets : p.isOneOf ["subscript"] = false) : (heritage source n).argument p = true := by
  have htype : p.isOneOf (nameKinds ++ ["subscript"]) = false := by
    rw [Node.isOneOf_append, hname, hbrackets, Bool.or_false]
  simp [heritage, htype]

/-- The search takes the bases that are names, which are read by themselves. -/
theorem search_sublist_namesIn {p : Node} (hrole : p.field ≠ "subscript") :
    (p.search (heritage source n).name fun m => !m.isOneOf nameKinds).Sublist
      ((heritage source n).namesIn p) := by
  have hsearch := search_base p
  split at hsearch
  · rename_i hname
    rw [namesIn_of_name hname hrole]
    exact hsearch ▸ List.Sublist.refl _
  · exact hsearch ▸ List.nil_sublist _

/-- The bases are read by their names, and those with brackets are left out. -/
theorem lists_iff (hrole : ∀ b ∈ bases source n, b.field ≠ "subscript") (d : Declared) :
    (heritage source n).Lists ((supertypes source n d).map Prod.fst) ↔
      (heritage source n).IsRead (fun m => !m.isOneOf nameKinds) (fun _ => false)
        (·.isOneOf ["subscript"]) := by
  have hroles {p : Node} (hp : p ∈ (heritage source n).pieces) : p.field ≠ "subscript" :=
    hrole p (mem_bases_of_mem_pieces hp)
  rw [targets_eq]
  refine (Heritage.lists_iff (fun m _ => pieces_holds m)
    (.inr fun p hp => search_sublist_namesIn (hroles hp))).trans ?_
  constructor
  · rintro ⟨hnamed, hpieces⟩
    refine ⟨hnamed, Heritage.isClear_of_none _ _, fun t ht => ?_⟩
    obtain ⟨name, hname, -⟩ := hnamed t ht
    have hfound := (hpieces t (List.mem_filter.mp ht).1).symm.trans hname
    rw [heritage, search_base] at hfound
    split at hfound
    · rename_i hname
      exact subscript_of_name hname
    · cases hfound
  · rintro ⟨hnamed, -, hwhole⟩
    refine ⟨hnamed, fun p hp => ?_⟩
    have hsearch := search_base p
    split at hsearch
    · rename_i hname
      rw [namesIn_of_name hname (hroles hp)]
      exact hsearch.symm
    · rename_i hother
      have hargument : (heritage source n).argument p = true := by
        by_contra hnone
        rw [Bool.not_eq_true] at hnone
        have hbrackets := hwhole p (List.mem_filter.mpr ⟨hp, by rw [hnone]; rfl⟩)
        rw [argument_of_other (Bool.eq_false_iff.mpr hother) hbrackets] at hnone
        cases hnone
      rw [Heritage.namesIn, Node.search_of_stop hargument]
      exact hsearch.symm

end Python

end Bases

section Supertypes

variable {g : Grammar} {source : Source} {n : Node}

/-- What the parsers make sure of: the trait of an implementation is a name with its path and
arguments, and the bases of a class have no roles. -/
structure Parsed (language : Language) (n : Node) : Prop where
  trait : language = .rust → ∀ t ∈ n.child? "trait", Rust.TraitName t
  bases : language = .python → ∀ s ∈ n.child? "superclasses", ∀ b ∈ s.namedChildren, b.field = ""

theorem Parsed.base_role (h : Parsed .python n) :
    ∀ b ∈ Python.bases source n, b.field ≠ "subscript" := by
  intro b hb
  obtain ⟨superclasses, hs, hb⟩ := List.mem_flatMap.mp (List.mem_filter.mp hb).1
  rw [h.bases rfl superclasses (Option.mem_toList.mp hs) b hb]
  decide

theorem Rust.lists_iff (hparsed : Parsed .rust n) (d : Declared) :
    (Grammar.heritage .rust source n d).Lists ((supertypes source n d).map Prod.fst) ↔
      (Grammar.heritage .rust source n d).IsRead (searchStops .rust n) (overlooked .rust n)
        (unread .rust) := by
  unfold Grammar.heritage searchStops overlooked unread
  dsimp only
  by_cases hkind : n.kind = "impl_item"
  · simp only [if_pos (beq_iff_eq.mpr hkind)]
    exact trait_lists_iff hkind (hparsed.trait rfl) d
  · simp only [if_neg (mt beq_iff_eq.mp hkind)]
    exact bound_lists_iff hkind d

/-- The supertypes that are reported of a declaration are the types of its inheritance clause, each
by its name without type arguments, exactly if each type has such a name, no name that the search
for names comes to stands in an argument that it overlooks, and it leaves out no type. -/
theorem supertypes_iff (hg : g ∈ supertypeGrammars) (hparsed : Parsed g.language n) (d : Declared) :
    (heritage g.language source n d).Lists ((g.supertypes source n d).map Prod.fst) ↔
      (heritage g.language source n d).IsRead (searchStops g.language n) (overlooked g.language n)
        (unread g.language) := by
  simp only [supertypeGrammars, List.mem_cons, List.not_mem_nil, or_false] at hg
  rcases hg with rfl | rfl | rfl | rfl | rfl | rfl | rfl | rfl | rfl
  · exact Python.lists_iff hparsed.base_role d
  · exact Rust.lists_iff hparsed d
  · exact Script.lists_iff d
  · exact Script.lists_iff_typed d
  · exact Go.lists_iff d
  · exact Java.lists_iff d
  · exact Cpp.lists_iff d
  · exact Swift.lists_iff d
  · exact Scala.lists_iff d

/-- The implementation `impl a::From<B> for C {}`. -/
def genericTrait : Source × Node :=
  let node (id : Nat) (kind field : String) (start stop : Nat) (children : List Node) : Node :=
    .mk ⟨id, kind, field, true, start, stop⟩ children
  (.plain "impl a::From<B> for C {}\n".toUTF8,
    node 1 "impl_item" "" 0 24
      [node 2 "generic_type" "trait" 5 15
        [node 3 "scoped_type_identifier" "type" 5 12
          [node 4 "identifier" "path" 5 6 [], node 5 "type_identifier" "name" 8 12 []],
          node 6 "type_arguments" "type_arguments" 12 15 [node 7 "type_identifier" "" 13 14 []]],
        node 8 "type_identifier" "type" 20 21 [], node 9 "declaration_list" "body" 22 24 []])

theorem supertypes_iff_impl : Parsed .rust genericTrait.2 ∧
    (heritage .rust genericTrait.1 genericTrait.2 (.scope "C" none)).Lists
      ((Rust.supertypes genericTrait.1 genericTrait.2 (.scope "C" none)).map Prod.fst) := by
  have hparsed : Parsed .rust genericTrait.2 := by
    refine ⟨fun _ t ht => ?_, fun hlanguage => absurd hlanguage (by decide)⟩
    obtain rfl := Option.some.inj ht
    exact .applied rfl rfl rfl (.behind rfl rfl rfl rfl)
  have hg : Rust.rules ∈ supertypeGrammars := by simp [supertypeGrammars]
  refine ⟨hparsed, (supertypes_iff hg hparsed _).mpr
    ⟨fun t ht => ?_, Heritage.isClear_of_none _ _, fun _ _ => rfl⟩⟩
  obtain rfl := List.mem_singleton.mp ht
  refine ⟨_, rfl, ?_⟩
  decide

/-- The file `trait A: From<B> {}`. -/
def genericBound : Source × Node :=
  let node (id : Nat) (kind field : String) (start stop : Nat) (children : List Node) : Node :=
    .mk ⟨id, kind, field, true, start, stop⟩ children
  (.plain "trait A: From<B> {}\n".toUTF8,
    node 0 "source_file" "" 0 20
      [node 1 "trait_item" "" 0 19
        [node 2 "type_identifier" "name" 6 7 [],
          node 3 "trait_bounds" "bounds" 7 16
            [node 4 "generic_type" "" 9 16
              [node 5 "type_identifier" "type" 9 13 [],
                node 6 "type_arguments" "type_arguments" 13 16
                  [node 7 "type_identifier" "" 14 15 []]]],
          node 8 "declaration_list" "body" 17 19 []]])

/-- The type argument of a bound is reported as a supertype of the trait. -/
theorem bound_argument_reported : ¬ ∀ g ∈ supertypeGrammars, ∀ (source : Source) (root : Node),
    ∀ place ∈ root.places, ∀ (scope : Scope) (d : Declared),
      g.classify source scope place = some d → Parsed g.language place.node →
        (heritage g.language source place.node d).Lists
          ((g.supertypes source place.node d).map Prod.fst) := by
  intro h
  let place : Cursor := genericBound.2.places.get ⟨1, by decide⟩
  have hplace : place ∈ genericBound.2.places := List.get_mem ..
  have hg : Rust.rules ∈ supertypeGrammars := by simp [supertypeGrammars]
  obtain ⟨d, hd⟩ : ∃ d, Rust.classify genericBound.1 .file place = some d := ⟨_, rfl⟩
  have hparsed : Parsed .rust place.node := by
    refine ⟨fun _ t ht => ?_, fun hlanguage => absurd hlanguage (by decide)⟩
    have hnone : place.node.child? "trait" = none := rfl
    rw [hnone] at ht
    exact absurd ht (Option.not_mem_none t)
  have htargets := (h _ hg _ _ place hplace .file d hd hparsed).2
  have hkind : place.node.kind ≠ "impl_item" := by decide
  have hreported : ((Rust.supertypes genericBound.1 place.node d).map Prod.fst).length = 2 := by
    rw [Rust.supertypes_of_bounds hkind, map_fst_flatMap Rust.typeNames_eq, List.length_map]
    rfl
  have hnamed : ((Rust.boundHeritage genericBound.1 place.node).types.flatMap
      (Rust.boundHeritage genericBound.1 place.node).namesIn).length = 1 := rfl
  have hcount : 2 = 1 :=
    calc 2
      _ = ((Rust.supertypes genericBound.1 place.node d).map Prod.fst).length := hreported.symm
      _ = _ := congrArg List.length htargets
      _ = _ := List.length_map ..
      _ = 1 := hnamed
  exact absurd hcount (by decide)

end Supertypes

end CodeAtlas.Grammar
