import CodeAtlas.Symbol
import CodeAtlas.Syntax.Cursor
/-!
Declarations and the scopes they open. A scope is the stack of the declarations around a place; a
new declaration takes its qualified name from the innermost of them.
-/
namespace CodeAtlas.Grammar

open Syntax

/-- What a node declares, before its place in the file is considered. -/
structure Declared where
  name : String
  kind : SymbolKind
  /-- The body; the signature is the text before it. -/
  body : Option Node
  /-- An owner written in the declaration itself, relative to the enclosing scope. -/
  qualifier : Option String
  /-- A scope for the names inside that is no symbol of its own. -/
  scopeOnly : Bool
deriving Repr, Inhabited

namespace Declared

def symbol (name : String) (kind : SymbolKind) (body : Option Node) : Declared :=
  ⟨name, kind, body, none, false⟩

def plain (name : String) (kind : SymbolKind) : Declared :=
  ⟨name, kind, none, none, false⟩

def scope (name : String) (body : Option Node) : Declared :=
  ⟨name, .aggregate, body, none, true⟩

def ownedBy (d : Declared) (qualifier : Option String) : Declared :=
  { d with qualifier := qualifier.filter fun q => !q.isEmpty }

end Declared

structure Frame where
  nodeId : Nat
  qualified : String
  kind : SymbolKind
  scopeOnly : Bool
deriving DecidableEq, Repr, Inhabited

/-- The declarations around a place, the innermost first. -/
structure Scope where
  frames : List Frame
deriving DecidableEq, Repr, Inhabited

structure Declaration where
  declared : Declared
  qualifiedName : String
  parent : Option String
deriving Repr, Inhabited

namespace Scope

def file : Scope := ⟨[]⟩

def innermost? (s : Scope) : Option Frame :=
  s.frames.head?

def qualified? (s : Scope) : Option String :=
  s.innermost?.map Frame.qualified

def inFunction (s : Scope) : Bool :=
  s.frames.any fun f => f.kind == .function

def inType (s : Scope) : Bool :=
  s.innermost?.any fun f => f.kind.isType

def inInterface (s : Scope) : Bool :=
  s.innermost?.any fun f => f.kind == .interface

def atModuleLevel (s : Scope) : Bool :=
  s.frames.all fun f => f.kind == .module

/-- The owner of a declaration: the enclosing scope, extended by the owner written in it. -/
def owner? (s : Scope) (d : Declared) : Option String :=
  match d.qualifier, s.qualified? with
  | some q, some outer => some (outer ++ "." ++ q)
  | some q, none => some q
  | none, outer => outer

def declare (s : Scope) (d : Declared) : Declaration :=
  let owner := s.owner? d
  let name := match owner with
    | some o => o ++ "." ++ d.name
    | none => d.name
  ⟨d, name, owner⟩

def enter (s : Scope) (nodeId : Nat) (d : Declaration) : Scope :=
  ⟨⟨nodeId, d.qualifiedName, d.declared.kind, d.declared.scopeOnly⟩ :: s.frames⟩

/-- The scope after a node; it changes only if the node opened the innermost scope. -/
def leave (s : Scope) (nodeId : Nat) : Scope :=
  match s.frames with
  | f :: frames => if f.nodeId = nodeId then ⟨frames⟩ else s
  | [] => s

end Scope

end CodeAtlas.Grammar
