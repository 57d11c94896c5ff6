import CodeAtlas.Grammar.Basic
import CodeAtlas.Naming
/-!
The rules for Java: types and their members declare, and without a modifier a member belongs to
the package.
-/
namespace CodeAtlas.Grammar.Java

open Syntax

def platformTypes : List String :=
  ["String", "Integer", "Long", "Double", "Float", "Boolean", "Character", "Byte", "Short",
    "Object", "List", "Map", "Set", "Optional", "Collection", "ArrayList", "HashMap", "HashSet"]

/-- The kinds that the search for type names stops at; arguments hold no name of their own. -/
def typeNameKinds : List String :=
  ["type_identifier", "scoped_type_identifier", "type_arguments"]

def typeNodes (node : Node) : List Node :=
  (node.outermost typeNameKinds).filter fun n => n.kind != "type_arguments"

def typeNames (source : Source) (node : Node) : List (String × Node) :=
  (typeNodes node).map fun n => (dotted (source.text n), n)

def typeKinds : List String :=
  ["class_declaration", "enum_declaration", "record_declaration"]

def classify (source : Source) (scope : Scope) (place : Cursor) : Option Declared :=
  let node := place.node
  let named (kind : SymbolKind) : Option Declared :=
    (source.textIn? node "name").map (Declared.symbol · kind (node.child? "body"))
  match node.kind with
  | "class_declaration" | "enum_declaration" | "record_declaration" => named .aggregate
  | "interface_declaration" | "annotation_type_declaration" => named .interface
  | "method_declaration" | "constructor_declaration" => named .function
  | "field_declaration" | "constant_declaration" =>
    if scope.inType then
      ((node.child? "declarator").bind fun d => source.textIn? d "name").map
        (Declared.plain · .variable)
    else none
  | _ => none

def modifiers (source : Source) (node : Node) : List String :=
  match node.childOfKind? "modifiers" with
  | none => []
  | some m => (Text.words (source.text m).toList).map String.ofList

def visibility (source : Source) (scope : Scope) (place : Cursor) (_ : Declared) : Visibility :=
  let words := modifiers source place.node
  if words.contains "public" then .everyone
  else if words.contains "private" then .owner
  else if words.contains "protected" then .heirs
  else if scope.inInterface then .everyone
  else .package

def importNames (source : Source) (_ : SourceFile) (node : Node) : List String :=
  (node.namedChildren.find? fun c => c.isOneOf ["scoped_identifier", "identifier"]).toList.map
    fun c => dotted (source.text c)

def callTarget (source : Source) (node : Node) : Option String :=
  match node.kind with
  | "method_invocation" =>
    (source.textIn? node "name").bind fun name =>
      match node.child? "object" with
      | some object => callee? (source.text object ++ "." ++ name)
      | none => callee? name
  | "object_creation_expression" =>
    (node.child? "type").bind fun t => callee? (source.text ((typeNodes t).head?.getD t))
  | _ => none

def supertypes (source : Source) (node : Node) (_ : Declared) : List (String × Node) :=
  if node.isOneOf typeKinds then
    (node.child? "superclass").toList.flatMap (typeNames source) ++
      (node.child? "interfaces").toList.flatMap (typeNames source)
  else if node.kind == "interface_declaration" then
    (node.childOfKind? "extends_interfaces").toList.flatMap (typeNames source)
  else []

def fieldTypes (source : Source) (node : Node) : List (String × Node) :=
  if node.kind != "field_declaration" then []
  else
    match node.child? "type" with
    | none => []
    | some type =>
      ((type.outermost ["type_identifier", "scoped_type_identifier"]).map
        fun n => (dotted (source.text n), n)).filter fun (name, _) => !platformTypes.contains name

def rules : Grammar where
  language := .java
  imports := [.node "import_declaration"]
  decisions :=
    [.node "if_statement" .branch, .node "for_statement" .loop,
      .node "enhanced_for_statement" .loop, .node "while_statement" .loop,
      .node "do_statement" .loop, .node "switch_block_statement_group" .case,
      .node "ternary_expression" .ternary, .applying "binary_expression" "&&" .conjunction,
      .applying "binary_expression" "||" .disjunction, .node "catch_clause" .handler]
  nesting := ["block", "class_body", "interface_body"]
  classify := classify
  visibility := visibility
  importNames := importNames
  callTarget := callTarget
  supertypes := supertypes
  fieldTypes := fieldTypes
  documentation := fun source place _ => leadingComments source place

end CodeAtlas.Grammar.Java
