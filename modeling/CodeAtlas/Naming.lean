import CodeAtlas.Path
import CodeAtlas.Text.Letter
/-!
Names as the graph compares them: steps joined by dots, whatever separator the language writes.
`dotted` normalises a path-like name, `callee?` the expression that a call applies.
-/
namespace CodeAtlas

/-- The name with every separator of paths and members written as a dot. -/
def dotSeparated (s : List Char) : List Char :=
  Text.replaceChar '/' '.' (Text.replacePair '-' '>' '.' (Text.replacePair ':' ':' '.' s))

/-- The steps of a name: what stands between its separators, without blanks around and without
empty steps. -/
def nameSteps (s : List Char) : List (List Char) :=
  ((Text.fields '.' (dotSeparated s)).map Text.trim).filter fun step => !step.isEmpty

def dotted (s : String) : String :=
  String.ofList (Text.join ['.'] (nameSteps s.toList))

def isCalleeChar (c : Char) : Bool :=
  Text.isAlphanumeric c || c == '_' || c == '.' || c == '$'

def selfReferences : List (List Char) :=
  ["self.".toList, "this.".toList, "Self.".toList]

/-- The name that a call applies, without a receiver that means the enclosing type; nothing for an
expression that is no plain name. -/
def callee? (s : String) : Option String :=
  let path := Text.join ['.'] (nameSteps (s.toList.filter fun c => !Text.isBlank c))
  if path.isEmpty || !path.all isCalleeChar then none
  else
    let name := (selfReferences.findSome? fun r => Text.after? r path).getD path
    if name.isEmpty then none else some (String.ofList name)

def isQuote (c : Char) : Bool :=
  c == '"' || c == '\'' || c == '\x60' || c == '<' || c == '>'

def unquote (s : String) : String :=
  String.ofList (Text.trimWhile isQuote (Text.trim s.toList))

/-- The specifier without a dot and one of the extensions at its end; the first extension that
fits is dropped. -/
def dropExtension (extensions : List String) (s : List Char) : List Char :=
  (extensions.findSome? fun ext => Text.before? ('.' :: ext.toList) s).getD s

def walkSteps : List String → List (List Char) → List String
  | dirs, [] => dirs
  | dirs, step :: rest =>
    if step = [] ∨ step = ['.'] then walkSteps dirs rest
    else if step = ['.', '.'] then walkSteps dirs.dropLast rest
    else walkSteps (dirs ++ [String.ofList step]) rest

def isRelative (s : String) : Bool :=
  Text.begins "./" s || Text.begins "../" s

/-- The module that a path-like specifier names: relative ones start in the directory of the
importing file, and an index file below another directory stands for its directory. -/
def resolvePathImport (spec : String) (importer : Path) (extensions : List String) : String :=
  let stem := dropExtension extensions spec.toList
  if isRelative spec then
    let steps := walkSteps ((importer.parent?.map Path.steps).getD []) (Text.fields '/' stem)
    Text.dotJoin
      (if steps.length > 1 && steps.getLast? == some "index" then steps.dropLast else steps)
  else dotted (String.ofList stem)

/-- The module that a specifier with leading dots names. The first dot means the package of the
importing module, which is the module itself if it is a package, and each further dot its parent;
a specifier without dots names itself. -/
def resolveDotImport (spec : String) (module : String) (isPackage : Bool) : String :=
  let rest := spec.toList.dropWhile (· == '.')
  let dots := spec.toList.length - rest.length
  if dots = 0 then dotted spec
  else
    let base := (Text.dotParts module).filter fun step => !step.isEmpty
    let up := if isPackage then dots - 1 else dots
    let steps := (Text.fields '.' rest).filter fun step => !step.isEmpty
    Text.dotJoin (base.take (base.length - up) ++ steps.map String.ofList)

end CodeAtlas
