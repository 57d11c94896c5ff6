import CodeAtlas.Grammar.Basic
import CodeAtlas.Naming
/-!
The rules for Go: methods belong to the type of their receiver, and a capital letter in front makes
a name public.
-/
namespace CodeAtlas.Grammar.Go

open Syntax

def predeclaredTypes : List String :=
  ["bool", "byte", "complex64", "complex128", "error", "float32", "float64", "int", "int8",
    "int16", "int32", "int64", "rune", "string", "uint", "uint8", "uint16", "uint32", "uint64",
    "uintptr", "any"]

def typeKinds : List String :=
  ["type_identifier", "qualified_type"]

def receiverType? (source : Source) (node : Node) : Option String :=
  (node.child? "receiver").bind fun r =>
    (r.outermost ["type_identifier"]).head?.map source.text

def classifyType (source : Source) (node : Node) : Option Declared :=
  match node.child? "type", source.textIn? node "name" with
  | some type, some name =>
    match type.kind with
    | "struct_type" => some (.symbol name .aggregate (type.childOfKind? "field_declaration_list"))
    | "interface_type" => some (.symbol name .interface (some type))
    | _ => some (.plain name .other)
  | _, _ => none

def classify (source : Source) (scope : Scope) (place : Cursor) : Option Declared :=
  let node := place.node
  match node.kind with
  | "function_declaration" =>
    (source.textIn? node "name").map (Declared.symbol · .function (node.child? "body"))
  | "method_declaration" =>
    (source.textIn? node "name").map fun name =>
      (Declared.symbol name .function (node.child? "body")).ownedBy (receiverType? source node)
  | "type_spec" => classifyType source node
  | "type_alias" => (source.textIn? node "name").map (Declared.plain · .other)
  | "const_spec" | "var_spec" =>
    if scope.atModuleLevel then (source.textIn? node "name").map (Declared.plain · .variable)
    else none
  | _ => none

def visibilityOf (name : String) : Visibility :=
  if name.toList.head?.any Text.isUppercase then .everyone else .package

def importNames (source : Source) (_ : SourceFile) (node : Node) : List String :=
  let path := unquote (source.text node)
  if path.isEmpty then [] else [dotted path]

def callTarget (source : Source) (node : Node) : Option String :=
  if node.kind == "call_expression" then (source.textIn? node "function").bind callee? else none

def typeNames (source : Source) (node : Node) : List (String × Node) :=
  (node.outermost typeKinds).map fun n => (dotted (source.text n), n)

def supertypes (source : Source) (node : Node) (_ : Declared) : List (String × Node) :=
  match node.child? "type" with
  | none => []
  | some type =>
    if node.kind == "type_spec" && type.kind == "interface_type" then
      (type.namedChildren.filter fun n => n.kind == "type_elem").flatMap (typeNames source)
    else []

def fieldTypes (source : Source) (node : Node) : List (String × Node) :=
  if node.kind != "field_declaration" then []
  else
    match node.child? "type" with
    | none => []
    | some type => (typeNames source type).filter fun (name, _) => !predeclaredTypes.contains name

def rules : Grammar where
  language := .go
  imports := [.field "import_spec" "path" none]
  decisions :=
    [.node "if_statement" .branch, .node "for_statement" .loop, .node "expression_case" .case,
      .node "type_case" .case, .node "communication_case" .case,
      .applying "binary_expression" "&&" .conjunction,
      .applying "binary_expression" "||" .disjunction]
  nesting := ["block"]
  classify := classify
  visibility := fun _ _ _ d => visibilityOf d.name
  importNames := importNames
  callTarget := callTarget
  supertypes := supertypes
  fieldTypes := fieldTypes
  documentation := fun source place _ => leadingComments source place

end CodeAtlas.Grammar.Go
