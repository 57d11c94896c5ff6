import CodeAtlas.Grammar.Basic
import CodeAtlas.Naming
/-!
The rules for Scala. The targets of an import are read off its text: clauses are separated by
commas outside braces, and a braced list of selectors stands behind the path that they share.
-/
namespace CodeAtlas.Grammar.Scala

open Syntax

def standardTypes : List String :=
  ["String", "Int", "Long", "Double", "Float", "Boolean", "Char", "Byte", "Short", "Unit", "Any",
    "AnyRef", "Option", "List", "Seq", "Vector", "Map", "Set", "Future", "Either", "Array"]

def typeNameKinds : List String :=
  ["type_identifier", "stable_type_identifier", "type_arguments"]

def typeNodes (node : Node) : List Node :=
  (node.outermost typeNameKinds).filter fun n => n.kind != "type_arguments"

def typeNames (source : Source) (node : Node) : List (String × Node) :=
  (typeNodes node).map fun n => (dotted (source.text n), n)

/-- The parts of a text between the commas outside braces; `depth` braces are open. -/
def clauses (depth : Nat) : List Char → List (List Char)
  | [] => [[]]
  | c :: rest =>
    if c == ',' && depth == 0 then [] :: clauses depth rest
    else
      let inner := if c == '\x7b' then depth + 1 else if c == '\x7d' then depth - 1 else depth
      match clauses inner rest with
      | [] => [[c]]
      | part :: parts => (c :: part) :: parts

def selectorName (s : List Char) : List Char :=
  Text.trim (Text.upTo " as ".toList (Text.upTo "=>".toList s))

/-- The path that a selector names behind the path of its list; a wildcard names the list. -/
def selectorPath? (outer : List Char) (selector : List Char) : Option (List Char) :=
  let name := selectorName selector
  if name.isEmpty then none
  else if name = ['_'] ∨ name = ['*'] then some outer
  else some (outer ++ '.' :: name)

/-- The path of a clause without selectors, without its alias or wildcard. -/
def plainPath (s : List Char) : List Char :=
  let path := Text.trim (Text.upTo " as ".toList s)
  ((Text.before? ['.', '_'] path).orElse fun _ => Text.before? ['.', '*'] path).getD path

def dottedChars (s : List Char) : List Char :=
  Text.join ['.'] (nameSteps s)

def clausePaths (clause : List Char) : List (List Char) :=
  let clause := Text.trim clause
  match Text.splitOnce? ['\x7b'] clause with
  | some (outer, selectors) =>
    (Text.fields ',' (Text.trimEndWhile (· == '\x7d') selectors)).filterMap
      (selectorPath? (dottedChars outer))
  | none => [dottedChars (plainPath clause)]

def importBody (s : List Char) : List Char :=
  Text.trim ((Text.after? "import".toList (Text.trim s)).getD s)

def importPaths (text : String) : List String :=
  (((clauses 0 (importBody text.toList)).flatMap clausePaths).filter fun p => !p.isEmpty).map
    String.ofList

def valueKinds : List String :=
  ["val_definition", "var_definition", "val_declaration", "var_declaration"]

def classifyValue (source : Source) (node : Node) : Option Declared :=
  ((node.child? "pattern").orElse fun _ => node.child? "name").bind fun pattern =>
    if pattern.kind == "identifier" then some (.plain (source.text pattern) .variable) else none

def kindOf? : String → Option SymbolKind
  | "class_definition" | "object_definition" => some .aggregate
  | "trait_definition" => some .interface
  | "function_definition" | "function_declaration" => some .function
  | _ => none

def classify (source : Source) (scope : Scope) (place : Cursor) : Option Declared :=
  let node := place.node
  match kindOf? node.kind with
  | some kind => (source.textIn? node "name").map (Declared.symbol · kind (node.child? "body"))
  | none =>
    if node.isOneOf valueKinds && (scope.inType || scope.atModuleLevel) then
      classifyValue source node
    else none

/-- The words of the modifiers of a declaration: what stands between characters that are neither
letters nor numbers. -/
def modifiers (source : Source) (node : Node) : List String :=
  match node.childOfKind? "modifiers" with
  | none => []
  | some m =>
    (Text.fieldsBy (fun c => !Text.isAlphanumeric c) (source.text m).toList).map String.ofList

def visibility (source : Source) (_ : Scope) (place : Cursor) (_ : Declared) : Visibility :=
  let words := modifiers source place.node
  if words.contains "private" then .owner
  else if words.contains "protected" then .heirs
  else .everyone

def callTarget (source : Source) (node : Node) : Option String :=
  match node.kind with
  | "call_expression" => (source.textIn? node "function").bind callee?
  | "instance_expression" => (typeNodes node).head?.bind fun t => callee? (source.text t)
  | _ => none

def supertypes (source : Source) (node : Node) (d : Declared) : List (String × Node) :=
  if d.kind.isType then (node.childOfKind? "extends_clause").toList.flatMap (typeNames source)
  else []

def fieldTypes (source : Source) (node : Node) : List (String × Node) :=
  if node.isOneOf ("class_parameter" :: valueKinds) then
    ((node.child? "type").toList.flatMap (typeNames source)).filter
      fun (name, _) => !standardTypes.contains name
  else []

/-- The rules for Scala; the handlers of an error count through their cases. -/
def rules : Grammar where
  language := .scala
  imports := [.node "import_declaration"]
  decisions :=
    [.node "if_expression" .branch, .node "for_expression" .loop,
      .node "while_expression" .loop, .node "case_clause" .case]
  nesting := ["block", "template_body", "case_block"]
  classify := classify
  visibility := visibility
  importNames := fun source _ node => importPaths (source.text node)
  callTarget := callTarget
  supertypes := supertypes
  fieldTypes := fieldTypes
  documentation := fun source place _ => leadingComments source place

end CodeAtlas.Grammar.Scala
