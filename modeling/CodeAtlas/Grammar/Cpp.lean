import CodeAtlas.Grammar.CFamily
/-!
The rules for C++: those of C with classes, namespaces, base classes and access labels.
-/
namespace CodeAtlas.Grammar.Cpp

open Syntax

def standardTypes : List String :=
  ["string", "string_view", "vector", "map", "unordered_map", "set", "unordered_set", "list",
    "deque", "array", "pair", "tuple", "optional", "variant", "function", "shared_ptr",
    "unique_ptr", "weak_ptr", "size_t"]

/-- A namespace without a name adds no level to the names inside. -/
def classify (source : Source) (scope : Scope) (place : Cursor) : Option Declared :=
  let node := place.node
  match node.kind with
  | "class_specifier" | "struct_specifier" | "union_specifier" =>
    match node.child? "body", (node.child? "name").bind (CFamily.declaratorName? source) with
    | some body, some (name, owner) =>
      some ((Declared.symbol name .aggregate (some body)).ownedBy owner)
    | _, _ => none
  | "namespace_definition" =>
    (source.textIn? node "name").map fun name =>
      .symbol (dotted name) .module (node.child? "body")
  | "alias_declaration" => (source.textIn? node "name").map (Declared.plain · .other)
  | "declaration" =>
    if scope.inType then (CFamily.declaration? source node).map Prod.fst
    else CFamily.classify source scope place
  | _ => CFamily.classify source scope place

def accessOf (label : String) : Visibility :=
  match String.ofList (Text.trim (Text.trimEndWhile (· == ':') label.toList)) with
  | "public" => .everyone
  | "protected" => .heirs
  | _ => .owner

def member (place : Cursor) : Cursor :=
  match place.parent? with
  | some parent => if parent.node.kind == "template_declaration" then parent else place
  | none => place

/-- The access of a member: the label nearest before it, or what its type gives without one. -/
def memberAccess? (source : Source) (place : Cursor) : Option Visibility :=
  let anchor := member place
  match anchor.trail with
  | [] => none
  | crumb :: above =>
    if crumb.parent.kind != "field_declaration_list" then none
    else
      match crumb.before.find? fun n => n.kind == "access_specifier" with
      | some label => some (accessOf (source.text label))
      | none => above.head?.map fun owner =>
          if owner.parent.kind == "class_specifier" then .owner else .everyone

def visibility (source : Source) (scope : Scope) (place : Cursor) (d : Declared) : Visibility :=
  (memberAccess? source place).getD (CFamily.visibility source scope place d)

def supertypes (source : Source) (node : Node) (_ : Declared) : List (String × Node) :=
  match node.childOfKind? "base_class_clause" with
  | none => []
  | some clause =>
    ((clause.outermost ["type_identifier", "qualified_identifier", "template_argument_list"]).filter
      fun n => n.kind != "template_argument_list").map fun n => (dotted (source.text n), n)

def rules : Grammar :=
  { CFamily.rules with
    language := .cpp
    decisions :=
      [.node "if_statement" .branch, .node "for_statement" .loop, .node "for_range_loop" .loop,
        .node "while_statement" .loop, .node "do_statement" .loop, .node "case_statement" .case,
        .node "conditional_expression" .ternary,
        .applying "binary_expression" "&&" .conjunction,
        .applying "binary_expression" "||" .disjunction, .node "catch_clause" .handler]
    nesting := ["compound_statement", "field_declaration_list", "declaration_list"]
    classify := classify
    visibility := visibility
    supertypes := supertypes
    fieldTypes := CFamily.fieldTypes standardTypes }

end CodeAtlas.Grammar.Cpp
