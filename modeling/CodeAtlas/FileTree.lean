import CodeAtlas.Path
import CodeAtlas.Syntax.Node
/-!
A directory tree as a value: files, directories and links. Places in it are lists of names from
the top; a path is resolved to a place step by step, through links, or to the fault that the first
impossible step is.
-/
namespace CodeAtlas

/-- A file, a directory with its entries in the order of their names, or a link. -/
inductive FileTree where
  | file (source : Syntax.Source)
  | dir (entries : List (String × FileTree))
  | link (target : Path)
deriving Inhabited

inductive FileFault where
  | notFound
  | exists
  | notDirectory
  | isDirectory
  | tooManyLinks
deriving DecidableEq, Repr, Inhabited

def FileFault.message : FileFault → String
  | notFound => "No such file or directory (os error 2)"
  | .exists => "File exists (os error 17)"
  | notDirectory => "Not a directory (os error 20)"
  | isDirectory => "Is a directory (os error 21)"
  | tooManyLinks => "Too many levels of symbolic links (os error 40)"

namespace FileTree

def empty : FileTree := dir []

def named? (entries : List (String × FileTree)) (name : String) : Option FileTree :=
  (entries.find? fun e => e.1 == name).map Prod.snd

/-- Puts an entry at its place in the order, instead of one with the same name. -/
def put (name : String) (t : FileTree) : List (String × FileTree) → List (String × FileTree)
  | [] => [(name, t)]
  | e :: rest =>
    if e.1 == name then (name, t) :: rest
    else if name < e.1 then (name, t) :: e :: rest
    else e :: put name t rest

def below? (t : FileTree) : List String → Option FileTree
  | [] => some t
  | name :: rest =>
    match t with
    | dir entries => (named? entries name).bind fun e => below? e rest
    | _ => none

/-- The tree with `e` at a place; directories on the way are made. -/
def set (t : FileTree) (e : FileTree) : List String → FileTree
  | [] => e
  | name :: rest =>
    match t with
    | dir entries => dir (put name (set ((named? entries name).getD empty) e rest) entries)
    | _ => dir [(name, set empty e rest)]

def rawSteps (p : Path) : List String :=
  (Text.fields '/' p.text.toList).map String.ofList

def linkLimit : Nat := 40

def locate (t : FileTree) (links : Nat) (place : List String) :
    List String → Except FileFault (List String)
  | [] => .ok place
  | step :: rest =>
    match t.below? place with
    | some (dir entries) =>
      if step == "" || step == "." then locate t links place rest
      else if step == ".." then locate t links place.dropLast rest
      else
        match named? entries step with
        | none => .error .notFound
        | some (link target) =>
          match links with
          | 0 => .error .tooManyLinks
          | n + 1 =>
            locate t n (if Text.begins "/" target.text then [] else place)
              (rawSteps target ++ rest)
        | some _ => locate t links (place ++ [step]) rest
    | _ => .error .notDirectory
termination_by steps => (links, steps.length)

def resolve (t : FileTree) (p : Path) : Except FileFault (List String) :=
  if p.text.isEmpty then .error .notFound else t.locate linkLimit [] (rawSteps p)

def get (t : FileTree) (p : Path) : Except FileFault FileTree :=
  (t.resolve p).bind fun place => (t.below? place).elim (.error .notFound) .ok

def has (t : FileTree) (p : Path) : Bool := (t.resolve p).isOk

def hasFile (t : FileTree) (p : Path) : Bool :=
  match t.get p with
  | .ok (file _) => true
  | _ => false

def read (t : FileTree) (p : Path) : Except FileFault Syntax.Source :=
  match t.get p with
  | .ok (file source) => .ok source
  | .ok _ => .error .isDirectory
  | .error e => .error e

def hasDir (t : FileTree) (p : Path) : Bool :=
  match t.get p with
  | .ok (dir _) => true
  | _ => false

def nameless : List String := ["", ".", ".."]

/-- Adds a directory at a path at which there is nothing yet, in an existing directory. -/
def makeDir (t : FileTree) (p : Path) : Except FileFault FileTree :=
  let steps := rawSteps p
  (t.locate linkLimit [] steps.dropLast).bind fun place =>
    match t.below? place, steps.getLastD "" with
    | some (dir entries), name =>
      if nameless.contains name || (named? entries name).isSome then .error .exists
      else .ok (t.set empty (place ++ [name]))
    | _, _ => .error .notDirectory

def ancestry (p : Path) : List Path :=
  ((List.range p.components.length).map fun i =>
    match p.components.take (i + 1) with
    | .root :: rest => ⟨"/" ++ "/".intercalate (rest.map Component.text)⟩
    | cs => ⟨"/".intercalate (cs.map Component.text)⟩).reverse

/-- Has a directory at the first path. If there is none in which it could be added, there have to
be those at the other paths first. What was added stays, whatever becomes of the rest. -/
def makeDirsFrom (t : FileTree) : List Path → FileTree × Option FileFault
  | [] => (t, none)
  | p :: outer =>
    match t.makeDir p with
    | .ok made => (made, none)
    | .error .notFound =>
      match makeDirsFrom t outer with
      | (t, none) =>
        match t.makeDir p with
        | .ok made => (made, none)
        | .error fault => (t, if t.hasDir p then none else some fault)
      | failed => failed
    | .error fault => (t, if t.hasDir p then none else some fault)

/-- Has a directory at a path and at those above it: the tree with what could be added, and what
stood in the way. -/
def makeDirs (t : FileTree) (p : Path) : FileTree × Option FileFault :=
  t.makeDirsFrom (ancestry p)

/-- The place to which a file is written that steps from a place lead to: the file that is there,
or an entry that is missing in an existing directory, through at most `links` links. -/
def placeToWrite (t : FileTree) : Nat → List String → List String →
    Except FileFault (List String)
  | 0, _, _ => .error .tooManyLinks
  | links + 1, start, steps =>
    let named := (steps.reverse.dropWhile (· == "")).reverse
    (t.locate linkLimit start named.dropLast).bind fun place =>
      match t.below? place, named.getLastD "" with
      | some (dir entries), name =>
        if named.length < steps.length || nameless.contains name then .error .isDirectory
        else
          match named? entries name with
          | some (dir _) => .error .isDirectory
          | some (link target) =>
            t.placeToWrite links (if Text.begins "/" target.text then [] else place)
              (rawSteps target)
          | _ => .ok (place ++ [name])
      | _, _ => .error .notDirectory

def write (t : FileTree) (p : Path) (source : Syntax.Source) : Except FileFault FileTree :=
  if p.text.isEmpty then .error .notFound
  else (t.placeToWrite (linkLimit + 1) [] (rawSteps p)).map fun place => t.set (file source) place

def ofEntries (entries : List (Path × FileTree)) : FileTree :=
  entries.foldl (fun t (p, e) =>
    match e, t.below? p.steps with
    | dir [], some (dir _) => t
    | e, _ => t.set e p.steps) empty

mutual

def dirCount : FileTree → Nat
  | dir entries => dirCounts entries + 1
  | _ => 0

def dirCounts : List (String × FileTree) → Nat
  | [] => 0
  | (_, t) :: rest => dirCount t + dirCounts rest

end

end FileTree

end CodeAtlas
