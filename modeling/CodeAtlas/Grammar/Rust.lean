import CodeAtlas.Grammar.Basic
import CodeAtlas.Naming
/-!
The rules for Rust: items declare, implementations open the scope of their type, and a use tree
stands for one path per leaf.
-/
namespace CodeAtlas.Grammar.Rust

open Syntax

def wrapperTypes : List String :=
  ["Vec", "Option", "Box", "Rc", "Arc", "String", "HashMap", "HashSet", "BTreeMap", "BTreeSet",
    "Result", "Cell", "RefCell", "Mutex", "RwLock", "PathBuf", "Self", "VecDeque", "Cow"]

def typeKinds : List String :=
  ["type_identifier", "scoped_type_identifier"]

mutual
def typeName (source : Source) : Node → String
  | .mk label children =>
    if ["generic_type", "reference_type", "pointer_type"].contains label.kind then
      typeNameIn source "type" children
    else if label.kind == "scoped_type_identifier" then
      ((children.find? fun c => c.field == "name").map source.text).getD ""
    else source.text (.mk label children)

def typeNameIn (source : Source) (role : String) : List Node → String
  | [] => ""
  | n :: ns => if n.field == role then typeName source n else typeNameIn source role ns
end

def below (outer path : String) : String :=
  let path := dotted path
  if outer.isEmpty then path
  else if path.isEmpty then outer
  else outer ++ "." ++ path

def wildcardPath (text : String) : String :=
  String.ofList (Text.dropEnds [':', ':'] (Text.trimEndWhile (· == '*') text.toList))

mutual
/-- The paths of a use tree below the path around it, one for each leaf. -/
def usePaths (source : Source) (outer : String) : Node → List String
  | .mk label children =>
    let node := Node.mk label children
    if label.kind == "use_as_clause" then usePathsIn source "path" outer children
    else if label.kind == "scoped_use_list" then
      let path := (source.textIn? node "path").map (below outer)
      usePathsIn source "list" (path.getD outer) children
    else if label.kind == "use_list" then usePathsAll source outer children
    else if label.kind == "use_wildcard" then [below outer (wildcardPath (source.text node))]
    else
      let path := below outer (source.text node)
      [((Text.before? ".self".toList path.toList).map String.ofList).getD path]

def usePathsIn (source : Source) (role outer : String) : List Node → List String
  | [] => []
  | n :: ns => if n.field == role then usePaths source outer n else usePathsIn source role outer ns

def usePathsAll (source : Source) (outer : String) : List Node → List String
  | [] => []
  | n :: ns =>
    if n.named then usePaths source outer n ++ usePathsAll source outer ns
    else usePathsAll source outer ns
end

/-- A path whose first step is `super`, from a module: each such step goes up by one. -/
def fromParents : List String → List String → List String
  | base, "super" :: rest => fromParents base.dropLast rest
  | base, path => base ++ path

/-- A path as seen from the root of the project, for a use in the given module. -/
def anchored (module path : String) : String :=
  match Text.dotParts path with
  | "crate" :: rest => Text.dotJoin rest
  | "self" :: rest => Text.dotJoin (module :: rest)
  | "super" :: rest => Text.dotJoin (fromParents (Text.dotParts module) ("super" :: rest))
  | _ => path

def importNames (source : Source) (file : SourceFile) (node : Node) : List String :=
  ((usePaths source "" node).map (anchored file.moduleId)).filter fun p => !p.isEmpty

def kindOf? (scope : Scope) : String → Option SymbolKind
  | "function_item" | "function_signature_item" => some .function
  | "struct_item" | "enum_item" | "union_item" => some .aggregate
  | "trait_item" => some .interface
  | "type_item" => some .other
  | "mod_item" => some .module
  | "const_item" | "static_item" => if scope.inFunction then none else some .variable
  | _ => none

def classify (source : Source) (scope : Scope) (place : Cursor) : Option Declared :=
  let node := place.node
  let body := node.child? "body"
  if node.kind == "impl_item" then
    (node.child? "type").map fun t => .scope (typeName source t) body
  else
    match kindOf? scope node.kind, source.textIn? node "name" with
    | some kind, some name => some (.symbol name kind body)
    | _, _ => none

/-- Without a modifier only the members of a trait are visible outside the module. -/
def visibility (source : Source) (scope : Scope) (place : Cursor) (_ : Declared) : Visibility :=
  match place.node.childOfKind? "visibility_modifier" with
  | some m => if source.text m == "pub" then .everyone else .package
  | none => if scope.inInterface then .everyone else .owner

def callTarget (source : Source) (node : Node) : Option String :=
  if node.kind != "call_expression" then none
  else
    match node.child? "function" with
    | none => none
    | some function =>
      if function.kind == "generic_function" then
        (source.textIn? function "function").bind callee?
      else callee? (source.text function)

def typeNames (source : Source) (node : Node) : List (String × Node) :=
  (node.outermost typeKinds).map fun t => (dotted (source.text t), t)

def supertypes (source : Source) (node : Node) (_ : Declared) : List (String × Node) :=
  match node.kind with
  | "impl_item" => (node.child? "trait").toList.map fun t => (dotted (typeName source t), t)
  | "trait_item" => (node.child? "bounds").toList.flatMap (typeNames source)
  | _ => []

def fieldTypes (source : Source) (node : Node) : List (String × Node) :=
  if node.kind != "field_declaration" then []
  else
    ((node.child? "type").toList.flatMap (typeNames source)).filter
      fun (name, _) => !wrapperTypes.contains name

def rules : Grammar where
  language := .rust
  imports :=
    [.field "use_declaration" "argument" none,
      .field "extern_crate_declaration" "name" (some "identifier")]
  decisions :=
    [.node "if_expression" .branch, .node "for_expression" .loop,
      .node "while_expression" .loop, .node "loop_expression" .loop, .node "match_arm" .case,
      .applying "binary_expression" "&&" .conjunction,
      .applying "binary_expression" "||" .disjunction]
  nesting := ["block", "declaration_list"]
  classify := classify
  visibility := visibility
  importNames := importNames
  callTarget := callTarget
  supertypes := supertypes
  fieldTypes := fieldTypes
  documentation := fun source place _ => leadingComments source place

end CodeAtlas.Grammar.Rust
