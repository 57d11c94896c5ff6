import CodeAtlas.Complexity
import CodeAtlas.Dependency
import CodeAtlas.Naming
import CodeAtlas.SourceFile
import CodeAtlas.Text.Matcher
import CodeAtlas.Text.Utf8
import CodeAtlas.Total
/-!
Outlines: what single lines show of a text in any language. Imports and declarations are found by
patterns, the declarations around a line by indentation, and complexity by counting the words that
decide. `Outline.ofText` reads a text line by line; a `Reader` holds what is open between lines.
-/
namespace CodeAtlas

structure Outline where
  symbols : List Symbol
  imports : List (String × Nat)
  decisions : Nat
  nestingDepth : Nat
deriving Repr, Inhabited

namespace Outline

open Text Text.Matcher

def empty : Outline :=
  ⟨[], [], 0, 0⟩

def binarySample : Nat := 8192

def isBinary (bytes : ByteArray) : Bool :=
  (bytes.extract 0 binarySample).toList.contains 0

def pathExtensions : List String :=
  ["h", "hpp", "js", "ts", "jsx", "tsx", "mjs", "rb", "php", "py"]

/-! ### Patterns of lines -/

def among (chars : String) : Matcher :=
  one fun c => chars.toList.contains c

def except (chars : String) : Matcher :=
  one fun c => !chars.toList.contains c

def nameStart : Matcher :=
  one fun c => c.isAlpha || c == '_'

def quotedGroup : Matcher :=
  inOrder [among "'\"", group (atLeastOne (except "'\"")), among "'\""]

def modifiers (words : List String) : Matcher :=
  let confined := inOrder
    [text "pub", maybe (inOrder [text "(", many (except ")"), text ")"])]
  many (next (orElse (keyword words) confined) gap)

/-- The forms of imports in the order they are tried; each captures its target. -/
def importForms : List Matcher :=
  [ -- from a.b import c
    inOrder [textStart, blanks, text "from", atLeastOne (one isBlank),
      group (next (many (text ".")) (many (one fun c => isWord c || c == '.'))), gap,
      text "import", wordEdge],
    -- import a from "b"
    inOrder [textStart, blanks, keyword ["import", "export"], wordEdge,
      many (one (· != '\n')), wordEdge, text "from", gap, quotedGroup],
    -- require("a")
    inOrder [wordEdge, text "require", maybe (keyword ["_relative", "_once"]), blanks,
      maybe (text "("), blanks, quotedGroup],
    -- #include <a.h>
    inOrder [textStart, blanks, text "#", blanks, text "include", blanks, among "<\"",
      group (atLeastOne (except ">\"")), among ">\""],
    -- import a "b"
    inOrder [textStart, blanks, text "import", gap, maybe (next (atLeastOne wordChar) gap),
      text "\"", group (atLeastOne (except "\"")), text "\""],
    -- import a.b
    inOrder [textStart, blanks, text "import", gap, maybe (next (text "static") gap),
      group (atLeastOne (one fun c => isWord c || c == '.'))],
    -- use a::b
    inOrder [textStart, blanks, maybe (next (text "pub") gap), text "use", gap,
      maybe (text "\\"), group (atLeastOne (one fun c => isWord c || c == ':' || c == '\\'))],
    -- using A.B;
    inOrder [textStart, blanks, text "using", gap, maybe (next (text "static") gap),
      group (atLeastOne (one fun c => isWord c || c == '.')), blanks, text ";"] ]

def blockImport : Matcher :=
  inOrder [textStart, blanks,
    maybe (next (atLeastOne (one fun c => isWord c || c == '.')) gap),
    text "\"", group (atLeastOne (except "\"")), text "\""]

def typeDeclaration : Matcher :=
  inOrder [textStart, blanks,
    modifiers ["public", "private", "protected", "internal", "export", "default", "abstract",
      "final", "sealed", "open", "data", "static", "partial"],
    group (keyword ["class", "struct", "interface", "trait", "enum", "module", "object", "record",
      "protocol", "namespace"]),
    gap, group (next nameStart (many wordChar))]

def functionDeclaration : Matcher :=
  inOrder [textStart, blanks,
    modifiers ["public", "private", "protected", "internal", "export", "default", "async",
      "static", "override", "open", "final", "abstract", "inline", "suspend", "unsafe", "const"],
    keyword ["def", "fn", "func", "fun", "function", "sub"], gap,
    maybe (inOrder [text "(", many (except ")"), text ")", blanks]),
    maybe (text "self."), group (inOrder [nameStart, many wordChar, maybe (among "!?")])]

def shellFunction : Matcher :=
  inOrder [textStart, blanks, group (next nameStart (many wordChar)), blanks, text "()", blanks,
    text "\x7b"]

def decision : Matcher :=
  oneOf
    [ inOrder [wordEdge,
        keyword ["if", "elif", "elsif", "unless", "for", "foreach", "while", "until", "case",
          "when", "catch", "except", "rescue", "and", "or"],
        wordEdge],
      text "&&", text "||" ]

/-! ### Single lines -/

/-- How a language writes comments: the marks that make a line one, and whether blocks exist. -/
def commentMarks : Language → List String × Bool
  | .python | .ruby | .shell => (["#"], false)
  | .php => (["//", "#"], true)
  | .unknown => (["//", "#", "--", ";"], true)
  | _ => (["//"], true)

def isLineComment (language : Language) (line : List Char) : Bool :=
  !"#include".toList.isPrefixOf line &&
    (commentMarks language).1.any fun mark => mark.toList.isPrefixOf line

/-- The width of the blanks in front of a line; a tab is four wide. -/
def indentOf (line : List Char) : Nat :=
  total (fun c => if c == '\t' then 4 else 1) (line.takeWhile isBlank)

def bracesAfter (depth : Nat) : List Char → Nat
  | [] => depth
  | c :: rest =>
    bracesAfter (if c == '\x7b' then depth + 1 else if c == '\x7d' then depth - 1 else depth) rest

def decisionsOf (line : List Char) : Nat :=
  (decision.allMatches line).length

def closers : List (List Char) :=
  ["end".toList, ['\x7d'], ['\x7d', ';'], ['\x7d', ')'], "fi".toList, "done".toList,
    "esac".toList]

/-- Whether a line closes all the braces that it opens, and opens one. -/
def closesItself (line : List Char) : Bool :=
  0 < line.count '\x7b' && line.count '\x7b' == line.count '\x7d'

def kindOfKeyword : String → SymbolKind
  | "interface" | "trait" | "protocol" => .interface
  | "enum" => .other
  | "module" | "namespace" => .module
  | _ => .aggregate

/-- The visibility that words of the line or underscores of the name give. -/
def visibilityOf (line : List Char) (name : String) : Visibility :=
  let has (word : String) : Bool := (words line).contains word.toList
  if has "private" || (begins "__" name && !ends "__" name) then .owner
  else if has "protected" || begins "_" name then .heirs
  else .everyone

def declaration? (line : List Char) : Option (String × SymbolKind) :=
  match typeDeclaration.captures? line with
  | some [keyword, name] => some (String.ofList name, kindOfKeyword (String.ofList keyword))
  | _ =>
    let function := (functionDeclaration.captures? line).orElse fun _ =>
      shellFunction.captures? line
    match function with
    | some [name] => some (String.ofList name, .function)
    | _ => none

def isPackage (path : Path) : Bool :=
  path.stem? == some "__init__"

def importTarget (file : SourceFile) (written : List Char) : String :=
  let spec := String.ofList (dropEnds "::*".toList (dropEnds ".*".toList written))
  if isRelative spec then resolvePathImport spec file.path pathExtensions
  else if begins "." spec then resolveDotImport spec file.moduleId (isPackage file.path)
  else
    resolvePathImport (String.ofList (replaceChar '\\' '/' spec.toList)) file.path pathExtensions

def import? (file : SourceFile) (line : List Char) : Option String :=
  match importForms.findSome? fun form => form.captures? line with
  | some [written] =>
    let target := importTarget file written
    if target.isEmpty then none else some target
  | _ => none

def signatureOf (line : List Char) : String :=
  String.ofList (trimEndWhile (fun c => c == '\x7b' || c == ':' || isBlank c) line)

/-! ### Reading -/

structure OpenScope where
  indent : Nat
  qualified : String
  symbol : Nat
  decisions : Nat
deriving Repr, Inhabited

structure Reader where
  found : Outline
  /-- The open declarations, the innermost first. -/
  scopes : List OpenScope
  inComment : Bool
  inImports : Bool
  braces : Nat
  /-- The smallest indentation so far, zero before there is one. -/
  unit : Nat
deriving Repr, Inhabited

namespace Reader

def start : Reader :=
  ⟨Outline.empty, [], false, false, 0, 0⟩

def closed (scope : OpenScope) (line : Nat) (s : Symbol) : Symbol :=
  let span := { s.location.span with endLine := max line s.location.span.startLine }
  { s with
    location := { s.location with span }
    complexity := if s.kind.isCallable then some (complexityOf scope.decisions) else s.complexity }

/-- Ends the innermost scopes whose body a line of this indentation cannot belong to. -/
def closeFrom (indent line : Nat) : List OpenScope → List Symbol → List OpenScope × List Symbol
  | [], symbols => ([], symbols)
  | scope :: scopes, symbols =>
    if indent ≤ scope.indent then
      closeFrom indent line scopes (symbols.modify scope.symbol (closed scope line))
    else (scope :: scopes, symbols)

def closeAll (line : Nat) (scopes : List OpenScope) (symbols : List Symbol) : List Symbol :=
  scopes.foldl (fun symbols scope => symbols.modify scope.symbol (closed scope line)) symbols

def addImport (r : Reader) (target : String) (line : Nat) : Reader :=
  { r with found := { r.found with imports := r.found.imports ++ [(target, line)] } }

/-- Notes a declaration, which stays open unless its line closes it. -/
def addSymbol (r : Reader) (file : SourceFile) (number indent decisions : Nat) (line : List Char)
    (name : String) (kind : SymbolKind) : Reader :=
  let parent := r.scopes.head?.map OpenScope.qualified
  let qualified := match parent with
    | some p => p ++ "." ++ name
    | none => name
  let symbol : Symbol := {
    name
    qualifiedName := qualified
    kind
    location := ⟨file.path, Span.ofLines number number⟩
    signature := if kind == .module then none else some (signatureOf line)
    documentation := none
    visibility := visibilityOf line name
    parent
    complexity := if kind.isCallable then some 1 else none }
  let index := r.found.symbols.length
  { r with
    found := { r.found with symbols := r.found.symbols ++ [symbol] }
    scopes :=
      if closesItself line then r.scopes else ⟨indent, qualified, index, decisions⟩ :: r.scopes }

/-- The depths, the open scopes and the decision points after a line of code, before what the line
imports or declares. -/
def advance (r : Reader) (number : Nat) (line trimmed : List Char) : Reader :=
  let indent := indentOf line
  let unit := if 0 < indent && (r.unit == 0 || indent < r.unit) then indent else r.unit
  let braces := bracesAfter r.braces trimmed
  let depth := max braces (if unit == 0 then 0 else indent / unit)
  let last := if closers.contains trimmed then number else number - 1
  let (scopes, symbols) := closeFrom indent last r.scopes r.found.symbols
  let decisions := decisionsOf trimmed
  { r with
    found := {
      symbols
      imports := r.found.imports
      decisions := r.found.decisions + decisions
      nestingDepth := max r.found.nestingDepth depth }
    scopes := scopes.map fun s => { s with decisions := s.decisions + decisions }
    braces
    unit }

def record (r : Reader) (file : SourceFile) (number : Nat) (line trimmed : List Char) : Reader :=
  if r.inImports then
    if trimmed.head? == some ')' then { r with inImports := false }
    else
      match blockImport.captures? trimmed with
      | some [path] => r.addImport (dotted (String.ofList path)) number
      | _ => r
  else if trimmed = "import (".toList then { r with inImports := true }
  else
    match import? file trimmed with
    | some target => r.addImport target number
    | none =>
      match declaration? line with
      | some (name, kind) =>
        r.addSymbol file number (indentOf line) (decisionsOf trimmed) trimmed name kind
      | none => r

def read (file : SourceFile) (r : Reader) (number : Nat) (line : List Char) : Reader :=
  let trimmed := trim line
  if r.inComment then { r with inComment := !holds ['*', '/'] trimmed }
  else
    let block := if (commentMarks file.language).2 then after? ['/', '*'] trimmed else none
    match block with
    | some rest => { r with inComment := !holds ['*', '/'] rest }
    | none =>
      if trimmed.isEmpty || isLineComment file.language trimmed then r
      else (r.advance number line trimmed).record file number line trimmed

def readAll (file : SourceFile) : Reader → Nat → List (List Char) → Reader
  | r, _, [] => r
  | r, number, line :: rest => readAll file (r.read file number line) (number + 1) rest

end Reader

def ofLines (file : SourceFile) (lines : List (List Char)) : Outline :=
  let r := Reader.readAll file Reader.start 1 lines
  { r.found with symbols := Reader.closeAll lines.length r.scopes r.found.symbols }

def ofBytes (file : SourceFile) (bytes : ByteArray) : Outline :=
  if isBinary bytes then empty else ofLines file (Text.lines (Text.Utf8.lossy bytes).toList)

def dependencies (o : Outline) (file : SourceFile) : List Dependency :=
  Dependency.distinct (o.imports.map fun (target, line) =>
    ⟨file.moduleId, target, .imports, ⟨file.path, Span.ofLines line line⟩⟩)

def metrics (o : Outline) (bytes : ByteArray) : FileMetrics :=
  if isBinary bytes then .none
  else ⟨complexityOf o.decisions, countLines bytes, o.nestingDepth⟩

end Outline

end CodeAtlas
