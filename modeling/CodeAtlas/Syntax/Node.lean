import CodeAtlas.Location
import CodeAtlas.Text.Utf8
/-!
Syntax trees and the source text they describe. A tree is given by its nodes in pre-order, each
with its depth (`Node.ofPreorder?`); a node knows its kind, its role in its parent and the bytes it
covers, and the source turns those bytes into text and places.
-/
namespace CodeAtlas.Syntax

structure Label where
  /-- The position of the node in pre-order, which tells nodes of one tree apart. -/
  id : Nat
  kind : String
  /-- The role of the node in its parent, empty if it has none. -/
  field : String
  /-- Whether the node stands for a rule of the grammar and not for a mere token. -/
  named : Bool
  start : Nat
  stop : Nat
deriving DecidableEq, Repr, Inhabited

inductive Node where
  | mk (label : Label) (children : List Node)
deriving Repr, Inhabited

namespace Node

def label : Node → Label
  | mk l _ => l

def children : Node → List Node
  | mk _ cs => cs

def id (n : Node) : Nat := n.label.id

def kind (n : Node) : String := n.label.kind

def field (n : Node) : String := n.label.field

def named (n : Node) : Bool := n.label.named

def start (n : Node) : Nat := n.label.start

def stop (n : Node) : Nat := n.label.stop

mutual
def size : Node → Nat
  | mk _ cs => 1 + sizes cs

def sizes : List Node → Nat
  | [] => 0
  | n :: ns => size n + sizes ns
end

theorem size_pos (n : Node) : 0 < n.size := by
  cases n
  simp only [size]
  omega

mutual
def subtree : Node → List Node
  | mk l cs => mk l cs :: subtrees cs

def subtrees : List Node → List Node
  | [] => []
  | n :: ns => subtree n ++ subtrees ns
end

/-- The children that stand for rules of the grammar, comments among them. -/
def namedChildren (n : Node) : List Node :=
  n.children.filter named

def child? (n : Node) (role : String) : Option Node :=
  n.children.find? fun c => c.field == role

def childrenIn (n : Node) (role : String) : List Node :=
  n.children.filter fun c => c.field == role

def childOfKind? (n : Node) (kind : String) : Option Node :=
  n.children.find? fun c => c.kind == kind

def isOneOf (n : Node) (kinds : List String) : Bool :=
  kinds.contains n.kind

/-- The trees that begin a list of nodes given in pre-order with their depths, put below the nodes
that come before them. -/
def graft (depth : Nat) (label : Label) (trees : List (Nat × Node)) : List (Nat × Node) :=
  let below := trees.takeWhile fun t => depth < t.1
  (depth, mk label (below.map Prod.snd)) :: trees.drop below.length

/-- The tree whose nodes are listed in pre-order with their depths. -/
def ofPreorder? (nodes : List (Nat × Label)) : Option Node :=
  match nodes.foldr (fun (depth, label) trees => graft depth label trees) [] with
  | [(_, root)] => some root
  | _ => none

end Node

/-- A syntax tree and whether its text has pieces that fit no rule. -/
structure Tree where
  root : Node
  hasError : Bool
deriving Repr, Inhabited

structure Source where
  bytes : ByteArray
  tree : Option Tree
deriving Inhabited

namespace Source

def plain (bytes : ByteArray) : Source :=
  ⟨bytes, none⟩

def upTo (s : Source) (offset : Nat) : List UInt8 :=
  (s.bytes.extract 0 offset).toList

def row (s : Source) (offset : Nat) : Nat :=
  (s.upTo offset).count 10

def column (s : Source) (offset : Nat) : Nat :=
  ((s.upTo offset).reverse.takeWhile (· != 10)).length

def text (s : Source) (n : Node) : String :=
  (Text.Utf8.strict? (s.bytes.extract n.start n.stop)).getD ""

def textIn? (s : Source) (n : Node) (role : String) : Option String :=
  (n.child? role).map s.text

def span (s : Source) (n : Node) : Span where
  startByte := n.start
  endByte := n.stop
  startLine := s.row n.start + 1
  startCol := s.column n.start + 1
  endLine := s.row n.stop + 1
  endCol := s.column n.stop + 1

end Source

end CodeAtlas.Syntax
