import CodeAtlas.Text.Cut
import Std.Data.HashMap
/-!
Names of nodes by their parts. A node is found by its whole name, by every proper end of it, and, if
it is a module, by every proper head of it; each list of positions is in the order of insertion.
-/
namespace CodeAtlas

structure NameIndex where
  byName : Std.HashMap String (List Nat)
  byEnd : Std.HashMap String (List Nat)
  byHead : Std.HashMap String (List Nat)

def properEnds (name : String) : List String :=
  let parts := Text.dotParts name
  (List.range (parts.length - 1)).map fun n => Text.dotJoin (parts.drop (n + 1))

def properHeads (name : String) : List String :=
  let parts := Text.dotParts name
  (List.range (parts.length - 1)).map fun n => Text.dotJoin (parts.take (n + 1))

namespace NameIndex

def empty : NameIndex :=
  ⟨∅, ∅, ∅⟩

def push (map : Std.HashMap String (List Nat)) (key : String) (position : Nat) :
    Std.HashMap String (List Nat) :=
  map.insert key ((map.getD key []) ++ [position])

/-- Adds the node at a position under its name; only modules can be found by a head. -/
def add (index : NameIndex) (name : String) (isModule : Bool) (position : Nat) : NameIndex where
  byName := push index.byName name position
  byEnd := (properEnds name).foldl (fun map key => push map key position) index.byEnd
  byHead :=
    if isModule then (properHeads name).foldl (fun map key => push map key position) index.byHead
    else index.byHead

def named (index : NameIndex) (name : String) : List Nat :=
  index.byName.getD name []

def ending (index : NameIndex) (name : String) : List Nat :=
  index.byEnd.getD name []

def within (index : NameIndex) (name : String) : List Nat :=
  index.byHead.getD name []

end NameIndex

end CodeAtlas
