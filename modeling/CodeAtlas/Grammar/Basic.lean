import CodeAtlas.Comment
import CodeAtlas.Dependency
import CodeAtlas.Grammar.Scope
import CodeAtlas.SourceFile
import CodeAtlas.Syntax.Query
import CodeAtlas.Syntax.Traversal
/-!
Grammars: the rules by which the symbols and dependencies of a file are read off its syntax tree.
A `Grammar` says for single nodes what they declare, call and import; the walk through the tree
(`Grammar.encounters`) supplies the scope of every node and the rest follows from its list.
-/
namespace CodeAtlas

open Syntax

namespace Grammar

def wrapperKinds : List String :=
  ["export_statement", "decorated_definition", "template_declaration", "lexical_declaration",
    "variable_declaration", "type_declaration", "const_declaration", "var_declaration"]

def attachedKinds : List String :=
  ["attribute_item", "decorator", "marker_annotation", "annotation"]

def unwrapped (node : Node) : List Crumb → Cursor
  | [] => ⟨node, []⟩
  | crumb :: trail =>
    if crumb.parent.isOneOf wrapperKinds then unwrapped crumb.parent trail
    else ⟨node, crumb :: trail⟩

/-- The comments among the siblings before a node that reach down to it without an empty line,
nearest first; `row` is the row that the next one has to touch. -/
def commentsAbove (source : Source) (row : Nat) : List Node → List String
  | [] => []
  | n :: rest =>
    if n.isOneOf attachedKinds then commentsAbove source (source.row n.start) rest
    else if Text.holds "comment".toList n.kind.toList then
      if source.row n.stop + 1 < row then []
      else Comment.clean (source.text n) :: commentsAbove source (source.row n.start) rest
    else []

def nonBlank? (s : List Char) : Option String :=
  let trimmed := Text.trim s
  if trimmed.isEmpty then none else some (String.ofList trimmed)

/-- The comments directly above a declaration or the node that wraps it. -/
def leadingComments (source : Source) (place : Cursor) : Option String :=
  let anchor := unwrapped place.node place.trail
  let comments := commentsAbove source (source.row anchor.node.start)
    (anchor.siblingsBefore.filter Node.named)
  nonBlank? ("\n".intercalate comments.reverse).toList

def signatureLimit : Nat := 240

def headBytes (limit : Nat) : List Char → List Char
  | [] => []
  | c :: rest => if c.utf8Size ≤ limit then c :: headBytes (limit - c.utf8Size) rest else []

def shortened (limit : Nat) (s : List Char) : List Char :=
  if Text.byteLength s ≤ limit then s else headBytes limit s ++ ['.', '.', '.']

def isHeaderEnd (c : Char) : Bool :=
  c == '\x7b' || c == ':' || c == ';' || c == '=' || Text.isBlank c

/-- The text of a declaration before its body, on one line. -/
def headerText (source : Source) (node : Node) (body : Option Node) : Option String :=
  let stop := max node.start ((body.map Node.start).getD node.stop)
  if source.bytes.size < stop then none
  else
    (Text.Utf8.strict? (source.bytes.extract node.start stop)).bind fun raw =>
      let header := Text.trimEndWhile isHeaderEnd (Text.join [' '] (Text.words raw.toList))
      if header.isEmpty then none else some (String.ofList (shortened signatureLimit header))

/-- The signature of a declaration; variables and modules have none. -/
def signature (source : Source) (node : Node) (d : Declared) : Option String :=
  match d.kind with
  | .variable | .module => none
  | _ => headerText source node d.body

end Grammar

structure Grammar where
  language : Language
  imports : List ImportRule
  decisions : List DecisionRule
  nesting : List String
  classify : Source → Grammar.Scope → Cursor → Option Grammar.Declared
  visibility : Source → Grammar.Scope → Cursor → Grammar.Declared → Visibility
  /-- The names that one import target stands for. -/
  importNames : Source → SourceFile → Node → List String
  callTarget : Source → Node → Option String
  supertypes : Source → Node → Grammar.Declared → List (String × Node)
  fieldTypes : Source → Node → List (String × Node)
  documentation : Source → Cursor → Grammar.Declared → Option String

namespace Grammar

/-- A node met on the walk, the scope it stands in, and what it declares there. -/
structure Encounter where
  place : Cursor
  scope : Scope
  declaration : Option Declaration
deriving Repr, Inhabited

/-- Whether the node declares something, and if so what, by the rules of the grammar. -/
def declaration? (g : Grammar) (source : Source) (scope : Scope) (place : Cursor) :
    Option Declaration :=
  (g.classify source scope place).map scope.declare

/-- One step of the walk: on entering, the node is noted with its scope and may open a new one; on
leaving, it closes the scope that it opened. -/
def step (g : Grammar) (source : Source) : Visitor (Scope × List Encounter) :=
  fun (scope, met) place visit =>
    match visit with
    | .enter =>
      let declaration := g.declaration? source scope place
      let inner := match declaration with
        | some d => scope.enter place.node.id d
        | none => scope
      ((inner, ⟨place, scope, declaration⟩ :: met), true)
    | .leave => ((scope.leave place.node.id, met), true)

def encounters (g : Grammar) (source : Source) (root : Node) : List Encounter :=
  (root.traverse (g.step source) (Scope.file, [])).2.reverse

def symbolOf (g : Grammar) (source : Source) (path : Path) (e : Encounter) : Option Symbol :=
  match e.declaration with
  | none => none
  | some d =>
    let node := e.place.node
    if d.declared.scopeOnly then none
    else some {
      name := d.declared.name
      qualifiedName := d.qualifiedName
      kind := d.declared.kind
      location := ⟨path, source.span node⟩
      signature := signature source node d.declared
      documentation := g.documentation source e.place d.declared
      visibility := g.visibility source e.scope e.place d.declared
      parent := d.parent
      complexity :=
        if d.declared.kind.isCallable then
          some (Syntax.complexity g.decisions (d.declared.body.getD node))
        else none }

def symbols (g : Grammar) (source : Source) (path : Path) (root : Node) : List Symbol :=
  (g.encounters source root).filterMap (g.symbolOf source path)

/-- A dependency of a file from a scope, or from the module itself. -/
def dependencyFrom (file : SourceFile) (scope : Option String) (target : String)
    (kind : DependencyKind) (span : Span) : Dependency where
  source := match scope with
    | some s => qualify file.moduleId s
    | none => file.moduleId
  target := target
  kind := kind
  location := ⟨file.path, span⟩

def importDependencies (g : Grammar) (source : Source) (file : SourceFile) (root : Node) :
    List Dependency :=
  (importTargets g.imports source root).flatMap fun n =>
    (g.importNames source file n).map fun target =>
      dependencyFrom file none target .imports (source.span n)

/-- The dependencies that a node states: its supertypes if it is a declaration, its types if it is
a field, and what it calls. -/
def dependenciesOf (g : Grammar) (source : Source) (file : SourceFile) (e : Encounter) :
    List Dependency :=
  let node := e.place.node
  let supertypes := match e.declaration with
    | none => []
    | some d => (g.supertypes source node d.declared).map fun (target, n) =>
        dependencyFrom file (some d.qualifiedName) target .inheritance (source.span n)
  let fields :=
    if e.scope.inType then
      (g.fieldTypes source node).map fun (target, n) =>
        dependencyFrom file e.scope.qualified? target .composition (source.span n)
    else []
  let calls := (g.callTarget source node).toList.map fun target =>
    dependencyFrom file e.scope.qualified? target .call (source.span node)
  supertypes ++ fields ++ calls

/-- The dependencies of a tree: the imports in the order of their places, then what the nodes state
in pre-order, each fact once. -/
def dependencies (g : Grammar) (source : Source) (file : SourceFile) (root : Node) :
    List Dependency :=
  Dependency.distinct
    (g.importDependencies source file root ++
      (g.encounters source root).flatMap (g.dependenciesOf source file))

def metrics (g : Grammar) (source : Source) (root : Node) : FileMetrics where
  cyclomatic := Syntax.complexity g.decisions root
  lines := countLines source.bytes
  nestingDepth := root.nestingDepth g.nesting

def named (source : Source) (nodes : List Node) : List (String × Node) :=
  nodes.map fun n => (source.text n, n)

end Grammar

end CodeAtlas
