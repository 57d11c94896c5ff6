import CodeAtlas.Grammar.Basic
import CodeAtlas.Naming
/-!
The rules for Python: definitions and assignments declare, leading underscores hide, and imports
with dots in front start at the package of the file.
-/
namespace CodeAtlas.Grammar.Python

open Syntax

def builtinTypes : List String :=
  ["int", "str", "float", "bool", "bytes", "list", "dict", "set", "tuple", "object", "None",
    "Optional", "List", "Dict", "Set", "Tuple", "Any", "Union", "Callable", "ClassVar",
    "Sequence", "Mapping", "Iterable", "Iterator", "Type"]

def nameKinds : List String :=
  ["identifier", "attribute"]

/-- The text that documents a body: the literal in its first statement. -/
def docstring? (source : Source) (body : Node) : Option String :=
  match body.namedChildren.head? with
  | none => none
  | some first =>
    if first.kind != "expression_statement" then none
    else
      match first.namedChildren.head? with
      | none => none
      | some literal =>
        if literal.kind != "string" then none
        else
          let raw := (source.text literal).toList.dropWhile fun c => "rRuUbBfF".toList.contains c
          let text := Text.trimWhile (fun c => c == '"' || c == '\'') raw
          nonBlank? (Text.join ['\n'] ((Text.lines text).map Text.trim))

def isPackage (path : Path) : Bool :=
  path.fileName? == some "__init__.py"

def classify (source : Source) (scope : Scope) (place : Cursor) : Option Declared :=
  let node := place.node
  let body := node.child? "body"
  match node.kind with
  | "function_definition" => (source.textIn? node "name").map (Declared.symbol · .function body)
  | "class_definition" => (source.textIn? node "name").map (Declared.symbol · .aggregate body)
  | "assignment" =>
    if !(scope.atModuleLevel || scope.inType) then none
    else
      match place.parent?, node.child? "left" with
      | some parent, some left =>
        if parent.node.kind == "expression_statement" && left.kind == "identifier" then
          some (.plain (source.text left) .variable)
        else none
      | _, _ => none
  | _ => none

/-- Names with two underscores in front are private unless two more follow; one underscore leaves
a name to derived types. -/
def visibilityOf (name : String) : Visibility :=
  if Text.begins "__" name then if Text.ends "__" name then .everyone else .owner
  else if Text.begins "_" name then .heirs
  else .everyone

def listedNames (source : Source) (node : Node) : List String :=
  (node.childrenIn "name").filterMap fun n =>
    let written := if n.kind == "aliased_import" then n.child? "name" else some n
    written.map fun w => dotted (source.text w)

/-- Dots without a name after them stand for a package whose modules are listed. -/
def importNames (source : Source) (file : SourceFile) (node : Node) : List String :=
  let names := listedNames source node
  if node.kind == "import_statement" then names
  else
    match node.child? "module_name" with
    | none => []
    | some module =>
      let spec := source.text module
      let resolved := resolveDotImport spec file.moduleId (isPackage file.path)
      if module.kind == "relative_import" && spec.toList.all (· == '.') then
        names.map fun name => if resolved.isEmpty then name else resolved ++ "." ++ name
      else [resolved]

def callTarget (source : Source) (node : Node) : Option String :=
  if node.kind == "call" then (source.textIn? node "function").bind callee? else none

def supertypes (source : Source) (node : Node) (_ : Declared) : List (String × Node) :=
  match node.child? "superclasses" with
  | none => []
  | some bases =>
    ((bases.namedChildren.filter fun n => n.isOneOf nameKinds).map
      fun n => (dotted (source.text n), n)).filter fun (name, _) => name != "object"

def fieldTypes (source : Source) (node : Node) : List (String × Node) :=
  if node.kind != "assignment" then []
  else
    match node.child? "type" with
    | none => []
    | some type =>
      ((type.outermost nameKinds).map fun n => (dotted (source.text n), n)).filter
        fun (name, _) => !builtinTypes.contains name

def rules : Grammar where
  language := .python
  imports := [.node "import_statement", .node "import_from_statement"]
  decisions :=
    [.node "if_statement" .branch, .node "elif_clause" .branch, .node "for_statement" .loop,
      .node "while_statement" .loop, .node "conditional_expression" .ternary,
      .applying "boolean_operator" "and" .conjunction,
      .applying "boolean_operator" "or" .disjunction, .node "except_clause" .handler,
      .node "case_clause" .case]
  nesting := ["block"]
  classify := classify
  visibility := fun _ _ _ d => visibilityOf d.name
  importNames := importNames
  callTarget := callTarget
  supertypes := supertypes
  fieldTypes := fieldTypes
  documentation := fun source place d =>
    (d.body.bind (docstring? source)).orElse fun _ => leadingComments source place

end CodeAtlas.Grammar.Python
