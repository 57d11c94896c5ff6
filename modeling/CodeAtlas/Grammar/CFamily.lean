import CodeAtlas.Grammar.Basic
import CodeAtlas.Naming
/-!
The rules for C, and those of them that C++ shares. The name of a declaration stands at the inner
end of its declarator, behind pointers, arrays and parameters.
-/
namespace CodeAtlas.Grammar.CFamily

open Syntax

def headerExtensions : List String :=
  ["h", "hh", "hpp", "hxx"]

def nameKinds : List String :=
  ["identifier", "field_identifier", "type_identifier", "destructor_name", "operator_name",
    "primitive_type"]

def joinOwners : Option String → Option String → Option String
  | some outer, some inner => some (outer ++ "." ++ inner)
  | some outer, none => some outer
  | none, inner => inner

mutual
/-- The name that a declarator declares and the owner written in front of it. -/
def declaratorName? (source : Source) : Node → Option (String × Option String)
  | .mk label children =>
    let node := Node.mk label children
    if nameKinds.contains label.kind then some (source.text node, none)
    else if label.kind == "qualified_identifier" then
      let owner := (source.textIn? node "scope").map dotted
      (nameIn? source "name" children).map fun (name, inner) => (name, joinOwners owner inner)
    else if ["template_function", "template_type"].contains label.kind then
      nameIn? source "name" children
    else if label.kind == "reference_declarator" then firstName? source children
    else nameIn? source "declarator" children

def nameIn? (source : Source) (role : String) : List Node → Option (String × Option String)
  | [] => none
  | n :: ns => if n.field == role then declaratorName? source n else nameIn? source role ns

def firstName? (source : Source) : List Node → Option (String × Option String)
  | [] => none
  | n :: ns => if n.named then declaratorName? source n else firstName? source ns
end

mutual
def declaresFunction : Node → Bool
  | .mk label children =>
    if label.kind == "function_declarator" then true
    else if label.kind == "reference_declarator" then firstDeclaresFunction children
    else declaratorIsFunction children

def declaratorIsFunction : List Node → Bool
  | [] => false
  | n :: ns => if n.field == "declarator" then declaresFunction n else declaratorIsFunction ns

def firstDeclaresFunction : List Node → Bool
  | [] => false
  | n :: ns => if n.named then declaresFunction n else firstDeclaresFunction ns
end

def isStatic (source : Source) (node : Node) : Bool :=
  node.children.any fun c => c.kind == "storage_class_specifier" && source.text c == "static"

def importNames (source : Source) (file : SourceFile) (node : Node) : List String :=
  let spec := unquote (source.text node)
  if spec.isEmpty then [] else [resolvePathImport spec file.path headerExtensions]

def declaration? (source : Source) (node : Node) : Option (Declared × Option String) :=
  (node.child? "declarator").bind fun declarator =>
    (declaratorName? source declarator).map fun (name, owner) =>
      (.plain name (if declaresFunction declarator then .function else .variable), owner)

def classify (source : Source) (scope : Scope) (place : Cursor) : Option Declared :=
  let node := place.node
  match node.kind with
  | "function_definition" =>
    ((node.child? "declarator").bind (declaratorName? source)).map fun (name, owner) =>
      (Declared.symbol name .function (node.child? "body")).ownedBy owner
  | "struct_specifier" | "union_specifier" | "enum_specifier" =>
    match node.child? "body", source.textIn? node "name" with
    | some body, some name =>
      some (.symbol name (if node.kind == "enum_specifier" then .other else .aggregate) (some body))
    | _, _ => none
  | "type_definition" =>
    ((node.child? "declarator").bind (declaratorName? source)).map fun (name, _) =>
      .plain name .other
  | "declaration" =>
    if scope.atModuleLevel then
      (declaration? source node).map fun (d, owner) => d.ownedBy owner
    else none
  | "field_declaration" =>
    if scope.inType then (declaration? source node).map Prod.fst else none
  | _ => none

def callTarget (source : Source) (node : Node) : Option String :=
  if node.kind != "call_expression" then none
  else
    match node.child? "function" with
    | none => none
    | some function =>
      if function.kind == "template_function" then
        (source.textIn? function "name").bind callee?
      else callee? (source.text function)

/-- The types that a field names; a field that declares a function has none. -/
def fieldTypes (ignored : List String) (source : Source) (node : Node) : List (String × Node) :=
  if node.kind != "field_declaration" then []
  else if (node.child? "declarator").any declaresFunction then []
  else
    match node.child? "type" with
    | none => []
    | some type =>
      (named source (type.outermost ["type_identifier"])).filter
        fun (name, _) => !ignored.contains name

/-- Only static declarations at the top of a file are hidden. -/
def visibility (source : Source) (scope : Scope) (place : Cursor) (_ : Declared) : Visibility :=
  if scope.atModuleLevel && isStatic source place.node then .owner else .everyone

def rules : Grammar where
  language := .c
  imports := [.field "preproc_include" "path" none]
  decisions :=
    [.node "if_statement" .branch, .node "for_statement" .loop, .node "while_statement" .loop,
      .node "do_statement" .loop, .node "case_statement" .case,
      .node "conditional_expression" .ternary,
      .applying "binary_expression" "&&" .conjunction,
      .applying "binary_expression" "||" .disjunction]
  nesting := ["compound_statement"]
  classify := classify
  visibility := visibility
  importNames := importNames
  callTarget := callTarget
  supertypes := fun _ _ _ => []
  fieldTypes := fieldTypes []
  documentation := fun source place _ => leadingComments source place

end CodeAtlas.Grammar.CFamily
