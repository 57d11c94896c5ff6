import CodeAtlas.Text.Cut
/-!
File paths. A path keeps the text it was written with; its meaning is the list of its components.
Comparison, equality of files and every question about directories look at the components only,
while output shows the text.
-/
namespace CodeAtlas

inductive Component where
  /-- The slash at the start of an absolute path. -/
  | root
  /-- A dot at the start of a relative path. -/
  | current
  | up
  | name (text : String)
deriving DecidableEq, Repr, Inhabited

namespace Component

def text : Component → String
  | root => "/"
  | current => "."
  | up => ".."
  | name s => s

def rank : Component → Nat
  | root => 0
  | current => 1
  | up => 2
  | name _ => 3

def compare (a b : Component) : Ordering :=
  (Ord.compare a.rank b.rank).then (Ord.compare a.text b.text)

/-- A step between two slashes; empty steps and single dots lead nowhere. -/
def ofStep? : List Char → Option Component
  | [] => none
  | ['.'] => none
  | ['.', '.'] => some up
  | s => some (name (String.ofList s))

end Component

structure Path where
  text : String
deriving DecidableEq, Repr, Inhabited

namespace Path

def componentsOf : List Char → List Component
  | '/' :: rest => .root :: (Text.fields '/' rest).filterMap Component.ofStep?
  | s =>
    match Text.fields '/' s with
    | ['.'] :: steps => .current :: steps.filterMap Component.ofStep?
    | steps => steps.filterMap Component.ofStep?

def components (p : Path) : List Component :=
  componentsOf p.text.toList

def compareComponents : List Component → List Component → Ordering
  | [], [] => .eq
  | [], _ :: _ => .lt
  | _ :: _, [] => .gt
  | a :: as, b :: bs => (a.compare b).then (compareComponents as bs)

def compare (p q : Path) : Ordering :=
  compareComponents p.components q.components

def le (p q : Path) : Bool :=
  (p.compare q).isLE

def same (p q : Path) : Bool :=
  p.components == q.components

/-- Drops final slashes and final steps of a single dot, but not the start of the path. -/
def trimBack : List Char → List Char
  | '/' :: c :: rest => trimBack (c :: rest)
  | '.' :: '/' :: rest => trimBack ('/' :: rest)
  | s => s

/-- The path without its last component; the root and the empty path have no parent. -/
def parent? (p : Path) : Option Path :=
  match trimBack p.text.toList.reverse with
  | [] => none
  | ['/'] => none
  | s => some ⟨String.ofList (trimBack (s.dropWhile (· != '/'))).reverse⟩

def dir (p : Path) : Path :=
  p.parent?.getD ⟨""⟩

def fileName? (p : Path) : Option String :=
  match p.components.getLast? with
  | some (.name s) => some s
  | _ => none

/-- A name cut at its last dot; a dot at the start of the name cuts nothing. -/
def cutName (s : List Char) : List Char × Option (List Char) :=
  let back := s.reverse
  let ext := back.takeWhile (· != '.')
  match back.drop ext.length with
  | '.' :: stem => if stem.isEmpty then (s, none) else (stem.reverse, some ext.reverse)
  | _ => (s, none)

def extension? (p : Path) : Option String :=
  p.fileName?.bind fun n => (cutName n.toList).2.map String.ofList

def stemOf (name : String) : String :=
  String.ofList (cutName name.toList).1

def stem? (p : Path) : Option String :=
  p.fileName?.map stemOf

def endsWith (p q : Path) : Bool :=
  q.components.isSuffixOf p.components

def startsWith (p q : Path) : Bool :=
  q.components.isPrefixOf p.components

/-- `q` as seen from the directory `p`; an absolute path stays. -/
def join (p q : Path) : Path :=
  if Text.begins "/" q.text || p.text.isEmpty then q
  else if Text.ends "/" p.text then ⟨p.text ++ q.text⟩
  else ⟨p.text ++ "/" ++ q.text⟩

def steps (p : Path) : List String :=
  p.components.map Component.text

end Path

end CodeAtlas
