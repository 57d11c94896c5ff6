import CodeAtlas.FileTree
/-!
A listing of a directory with the syntax trees of its files, as a text with one item a line and
tabs between the words of a line. Trees come from the parsers of the languages, which are programs
of their own.

* `dir`, a path: a directory;
* `link`, a path, its target: a link;
* `file`, a path: a file, whose contents are not in the listing;
* `tree`, `0` or `1`: the file above has a tree, with `1` if it has pieces that fit no rule;
* `node`, a depth, `0` or `1` for a token or a rule, a kind, a role, two offsets: a node of the
  tree, in pre-order.
-/
namespace CodeAtlas

structure ListedFile where
  path : Path
  tree : Option Syntax.Tree
deriving Inhabited

inductive Listed where
  | dir (path : Path)
  | link (path target : Path)
  | file (file : ListedFile)
deriving Inhabited

namespace Listing

inductive Item where
  | entry (e : Listed)
  /-- The file above has a tree. -/
  | tree (hasError : Bool)
  /-- A node of the tree above; `id` is its position in the listing. -/
  | node (depth : Nat) (label : Syntax.Label)
deriving Inhabited

def flag? : String → Option Bool
  | "0" => some false
  | "1" => some true
  | _ => none

def item? (position : Nat) (line : List Char) : Option Item :=
  match (Text.fields '\t' line).map String.ofList with
  | ["dir", p] => some (.entry (.dir ⟨p⟩))
  | ["link", p, target] => some (.entry (.link ⟨p⟩ ⟨target⟩))
  | ["file", p] => some (.entry (.file ⟨⟨p⟩, none⟩))
  | ["tree", mark] => (flag? mark).map .tree
  | ["node", depth, mark, kind, role, start, stop] => do
    some (.node (← depth.toNat?)
      ⟨position, kind, role, ← flag? mark, ← start.toNat?, ← stop.toNat?⟩)
  | _ => none

def nodes : List Item → List (Nat × Syntax.Label)
  | .node depth label :: rest => (depth, label) :: nodes rest
  | _ => []

/-- What the items say: a tree follows its file, and the nodes of a tree follow it. -/
def entries? : List Item → Option (List Listed)
  | [] => some []
  | .entry (.file f) :: .tree hasError :: rest => do
    let found := nodes rest
    let root ← Syntax.Node.ofPreorder? found
    let after ← entries? (rest.drop found.length)
    some (.file { f with tree := some ⟨root, hasError⟩ } :: after)
  | .entry e :: rest => (entries? rest).map (e :: ·)
  | .tree _ :: _ | .node _ _ :: _ => none
termination_by items => items.length
decreasing_by
  · simp only [List.length_drop, List.length_cons]
    omega
  · exact Nat.lt_succ_self _

def read? (text : String) : Option (List Listed) := do
  let items ← (Text.lines text.toList).zipIdx.mapM fun (line, i) => item? i line
  entries? items

end Listing

def FileTree.ofListing (contents : Path → ByteArray) (entries : List Listed) : FileTree :=
  ofEntries (entries.map fun
    | .dir p => (p, empty)
    | .link p target => (p, link target)
    | .file f => (f.path, file ⟨contents f.path, f.tree⟩))

end CodeAtlas
