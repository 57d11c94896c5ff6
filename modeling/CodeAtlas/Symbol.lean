import CodeAtlas.Location
/-!
Symbols: the named units that a file declares.
-/
namespace CodeAtlas

inductive SymbolKind where
  /-- A class, and whatever a language has in its place. -/
  | aggregate
  | function
  | variable
  | module
  | interface
  /-- Type aliases and enumerations. -/
  | other
deriving DecidableEq, Repr, Inhabited

namespace SymbolKind

def all : List SymbolKind :=
  [.aggregate, .function, .variable, .module, .interface, .other]

def id : SymbolKind → String
  | .aggregate => "class"
  | .function => "function"
  | .variable => "variable"
  | .module => "module"
  | .interface => "interface"
  | .other => "other"

def ofId? (s : String) : Option SymbolKind :=
  all.find? fun k => k.id == s

def isType : SymbolKind → Bool
  | .aggregate | .interface | .other => true
  | _ => false

def isCallable : SymbolKind → Bool
  | .function => true
  | _ => false

end SymbolKind

inductive Visibility where
  | everyone
  /-- The declaring type or file only. -/
  | owner
  /-- The declaring type and the types derived from it. -/
  | heirs
  | package
deriving DecidableEq, Repr, Inhabited

def Visibility.id : Visibility → String
  | .everyone => "public"
  | .owner => "private"
  | .heirs => "protected"
  | .package => "package"

structure Symbol where
  name : String
  /-- The name behind the names of the enclosing symbols of the file, with dots between. -/
  qualifiedName : String
  kind : SymbolKind
  location : Location
  signature : Option String
  documentation : Option String
  visibility : Visibility
  parent : Option String
  complexity : Option UInt32
deriving DecidableEq, Repr, Inhabited

def qualify (moduleId qualifiedName : String) : String :=
  if moduleId.isEmpty then qualifiedName else moduleId ++ "." ++ qualifiedName

namespace Symbol

def fullName (s : Symbol) (moduleId : String) : String :=
  qualify moduleId s.qualifiedName

def line (s : Symbol) : Nat :=
  s.location.span.startLine

end Symbol

end CodeAtlas
