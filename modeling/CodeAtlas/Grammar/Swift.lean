import CodeAtlas.Grammar.Basic
import CodeAtlas.Naming
/-!
The rules for Swift: the members of an extension belong to the extended type, and what has no
modifier belongs to its package.
-/
namespace CodeAtlas.Grammar.Swift

open Syntax

def standardTypes : List String :=
  ["String", "Int", "Int32", "Int64", "UInt", "Double", "Float", "Bool", "Character", "Data",
    "Date", "URL", "Array", "Dictionary", "Set", "Optional", "Any", "AnyObject", "Void"]

def typeNames (source : Source) (node : Node) : List (String × Node) :=
  named source ((node.outermost ["type_identifier", "type_arguments"]).filter
    fun n => n.kind != "type_arguments")

/-- A class-like declaration; an extension is the scope of the type that it extends. -/
def classifyType (source : Source) (node : Node) : Option Declared :=
  let body := node.child? "body"
  if (node.child? "declaration_kind").any fun k => k.kind == "extension" then
    (node.child? "name").bind fun extended =>
      (extended.outermost ["type_identifier"]).head?.map fun t => .scope (source.text t) body
  else (source.textIn? node "name").map (Declared.symbol · .aggregate body)

def classify (source : Source) (scope : Scope) (place : Cursor) : Option Declared :=
  let node := place.node
  let body := node.child? "body"
  match node.kind with
  | "class_declaration" => classifyType source node
  | "protocol_declaration" => (source.textIn? node "name").map (Declared.symbol · .interface body)
  | "function_declaration" | "protocol_function_declaration" =>
    (source.textIn? node "name").map (Declared.symbol · .function body)
  | "init_declaration" => some (.symbol "init" .function body)
  | "property_declaration" =>
    if scope.inType || scope.atModuleLevel then
      (node.child? "name").map fun pattern =>
        let written := (pattern.outermost ["simple_identifier"]).head?.getD pattern
        .plain (source.text written) .variable
    else none
  | _ => none

def modifiers (source : Source) (node : Node) : List String :=
  match node.childOfKind? "modifiers" with
  | none => []
  | some m =>
    (Text.fieldsBy (fun c => !Text.isAlphanumeric c) (source.text m).toList).map String.ofList

def visibility (source : Source) (_ : Scope) (place : Cursor) (_ : Declared) : Visibility :=
  let words := modifiers source place.node
  if words.contains "public" || words.contains "open" then .everyone
  else if words.contains "private" || words.contains "fileprivate" then .owner
  else .package

def importNames (source : Source) (_ : SourceFile) (node : Node) : List String :=
  ((node.childOfKind? "identifier").toList.map fun n => dotted (source.text n)).filter
    fun path => !path.isEmpty

def callTarget (source : Source) (node : Node) : Option String :=
  if node.kind == "call_expression" then
    node.namedChildren.head?.bind fun n => callee? (source.text n)
  else none

def supertypes (source : Source) (node : Node) (d : Declared) : List (String × Node) :=
  if d.kind.isType then
    (node.children.filter fun c => c.kind == "inheritance_specifier").flatMap (typeNames source)
  else []

def fieldTypes (source : Source) (node : Node) : List (String × Node) :=
  if node.kind != "property_declaration" then []
  else
    match (node.outermost ["type_annotation"]).head? with
    | none => []
    | some type =>
      (typeNames source type).filter fun (name, _) => !standardTypes.contains name

def rules : Grammar where
  language := .swift
  imports := [.node "import_declaration"]
  decisions :=
    [.node "if_statement" .branch, .node "guard_statement" .branch, .node "for_statement" .loop,
      .node "while_statement" .loop, .node "repeat_while_statement" .loop,
      .node "switch_entry" .case, .node "ternary_expression" .ternary,
      .node "conjunction_expression" .conjunction, .node "disjunction_expression" .disjunction,
      .node "catch_block" .handler]
  nesting :=
    ["class_body", "enum_class_body", "protocol_body", "function_body", "lambda_literal",
      "if_statement", "guard_statement", "for_statement", "while_statement", "switch_statement"]
  classify := classify
  visibility := visibility
  importNames := importNames
  callTarget := callTarget
  supertypes := supertypes
  fieldTypes := fieldTypes
  documentation := fun source place _ => leadingComments source place

end CodeAtlas.Grammar.Swift
