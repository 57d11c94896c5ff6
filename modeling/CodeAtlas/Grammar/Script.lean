import CodeAtlas.Grammar.Basic
import CodeAtlas.Naming
/-!
The rules for JavaScript and TypeScript. Both share their declarations, calls, imports and
heritage; TypeScript adds types, signatures and annotated fields.
-/
namespace CodeAtlas.Grammar.Script

open Syntax

def extensions : List String :=
  ["js", "jsx", "mjs", "cjs", "ts", "tsx", "mts", "cts"]

def functionKinds : List String :=
  ["arrow_function", "function_expression", "function", "generator_function"]

/-- A variable; one that holds a function is that function, any other counts at module level. -/
def classifyVariable (source : Source) (scope : Scope) (node : Node) : Option Declared :=
  match node.child? "name" with
  | none => none
  | some name =>
    if name.kind != "identifier" then none
    else
      match (node.child? "value").filter fun v => v.isOneOf functionKinds with
      | some value => some (.symbol (source.text name) .function (value.child? "body"))
      | none =>
        if scope.atModuleLevel then some (.plain (source.text name) .variable) else none

def classify (source : Source) (scope : Scope) (place : Cursor) : Option Declared :=
  let node := place.node
  let body := node.child? "body"
  match node.kind with
  | "function_declaration" | "generator_function_declaration" | "method_definition" =>
    (source.textIn? node "name").map (Declared.symbol · .function body)
  | "class_declaration" | "class" =>
    (source.textIn? node "name").map (Declared.symbol · .aggregate body)
  | "field_definition" => (source.textIn? node "property").map (Declared.plain · .variable)
  | "variable_declarator" => classifyVariable source scope node
  | _ => none

/-- Whether a node above exports the declaration; only the keyword of a variable may stand between
them. -/
def isExported : List Node → Bool
  | [] => false
  | n :: above =>
    if n.kind == "export_statement" then true
    else if n.isOneOf ["lexical_declaration", "variable_declaration"] then isExported above
    else false

/-- Private names begin with a hash; a modifier decides for members, the export for the rest. -/
def visibility (source : Source) (scope : Scope) (place : Cursor) (d : Declared) : Visibility :=
  if Text.begins "#" d.name then .owner
  else
    match (place.node.childOfKind? "accessibility_modifier").map source.text with
    | some "private" => .owner
    | some "protected" => .heirs
    | some _ => .everyone
    | none => if scope.inType || isExported place.ancestors then .everyone else .package

def importNames (source : Source) (file : SourceFile) (node : Node) : List String :=
  let spec := unquote (source.text node)
  if spec.isEmpty then [] else [resolvePathImport spec file.path extensions]

def applied? (node : Node) : Option Node :=
  match node.kind with
  | "call_expression" => node.child? "function"
  | "new_expression" => node.child? "constructor"
  | _ => none

/-- What a node calls; loading a module is an import and no call. -/
def callTarget (source : Source) (node : Node) : Option String :=
  (applied? node).bind fun f =>
    if f.kind == "import" || source.text f == "require" then none else callee? (source.text f)

def heritageKinds : List String :=
  ["identifier", "type_identifier", "member_expression", "nested_type_identifier",
    "type_arguments", "arguments"]

def heritageNames (source : Source) (clause : Node) : List (String × Node) :=
  ((clause.outermost heritageKinds).filter
    fun n => !n.isOneOf ["type_arguments", "arguments"]).map fun n => (dotted (source.text n), n)

def supertypes (source : Source) (node : Node) (_ : Declared) : List (String × Node) :=
  if node.isOneOf ["class_declaration", "class", "abstract_class_declaration"] then
    (node.childOfKind? "class_heritage").toList.flatMap (heritageNames source)
  else []

def javascript : Grammar where
  language := .javascript
  imports :=
    [.field "import_statement" "source" (some "string"),
      .field "export_statement" "source" (some "string"), .call "require"]
  decisions :=
    [.node "if_statement" .branch, .node "for_statement" .loop, .node "for_in_statement" .loop,
      .node "while_statement" .loop, .node "do_statement" .loop, .node "switch_case" .case,
      .node "ternary_expression" .ternary, .applying "binary_expression" "&&" .conjunction,
      .applying "binary_expression" "||" .disjunction,
      .applying "binary_expression" "??" .disjunction, .node "catch_clause" .handler]
  nesting := ["statement_block", "class_body"]
  classify := classify
  visibility := visibility
  importNames := importNames
  callTarget := callTarget
  supertypes := supertypes
  fieldTypes := fun _ _ => []
  documentation := fun source place _ => leadingComments source place

def builtinTypes : List String :=
  ["Array", "Map", "Set", "Record", "Promise", "Partial", "Readonly", "ReadonlyArray", "Date",
    "Error", "Omit", "Pick", "Required"]

def typedKind? : String → Option SymbolKind
  | "interface_declaration" => some .interface
  | "abstract_class_declaration" | "enum_declaration" => some .aggregate
  | "type_alias_declaration" => some .other
  | "internal_module" | "module" => some .module
  | "method_signature" | "abstract_method_signature" | "function_signature" => some .function
  | "public_field_definition" | "property_signature" => some .variable
  | _ => none

def classifyTyped (source : Source) (scope : Scope) (place : Cursor) : Option Declared :=
  let node := place.node
  match typedKind? node.kind with
  | some kind => (source.textIn? node "name").map fun name =>
      .symbol (dotted (unquote name)) kind (node.child? "body")
  | none => classify source scope place

def supertypesTyped (source : Source) (node : Node) (d : Declared) : List (String × Node) :=
  if node.kind == "interface_declaration" then
    (node.childOfKind? "extends_type_clause").toList.flatMap (heritageNames source)
  else supertypes source node d

def fieldTypes (source : Source) (node : Node) : List (String × Node) :=
  if node.kind != "public_field_definition" then []
  else
    match node.child? "type" with
    | none => []
    | some type =>
      ((type.outermost ["type_identifier", "nested_type_identifier"]).map
        fun n => (dotted (source.text n), n)).filter fun (name, _) => !builtinTypes.contains name

def typescript : Grammar :=
  { javascript with
    language := .typescript
    classify := classifyTyped
    supertypes := supertypesTyped
    fieldTypes := fieldTypes }

end CodeAtlas.Grammar.Script
