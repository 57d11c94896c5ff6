import CodeAtlas.Grammar.Java
import CodeAtlas.Grammar.Scala
import CodeAtlas.Proofs.Syntax.Outermost
/-!
The names of types in a tree. A search for some kinds lists the nodes of these kinds that stand in
no other such node, each once and in the order of the text, whatever tree it starts from. A search
for type names also stops at type arguments and leaves them out, so that in Java and in Scala it
lists the outermost type names outside of type arguments (`type_names_are_outermost`).
-/
namespace CodeAtlas.Grammar

open Syntax

/-- The node at a place is a type name, and stands neither in another type name nor in type
arguments. -/
def IsTypeName (names : List String) : Cursor → Prop :=
  Cursor.IsFound (·.isOneOf names) (·.isOneOf ["type_arguments"])

instance (names : List String) : DecidablePred (IsTypeName names) :=
  inferInstanceAs (DecidablePred (Cursor.IsFound _ _))

/-- The search for type names reads one name at each place of a type name. -/
theorem exists_picks_names {names : List String} (hnames : "type_arguments" ∉ names)
    (source : Source) (root : Node) :
    ∃ picked, root.Picks (IsTypeName names) picked ∧
      ((root.outermost (names ++ ["type_arguments"])).filter
          fun n => n.kind != "type_arguments").map (fun n => (dotted (source.text n), n)) =
        picked.map fun c => (dotted (source.text c.node), c.node) := by
  have hapart (n : Node) (hname : n.isOneOf names = true) :
      n.isOneOf ["type_arguments"] = false := by
    rw [Node.isOneOf_singleton, beq_eq_false_iff_ne]
    intro hkind
    have hmem : n.kind ∈ names := List.contains_iff_mem.mp hname
    exact hnames (hkind ▸ hmem)
  refine ⟨_, root.picks_filter (IsTypeName names), ?_⟩
  rw [Node.filter_outermost_kind, Node.search_eq_filter_found hapart, List.map_map]
  rfl

/-- A search for some kinds lists the nodes of a tree, its root among them, that are of one of the
kinds and have no such node above them: one for each place, in the order of the places. If the tree
is laid out in a text, each of them ends before the next one begins. The type names that are read
off a Java or Scala tree are those at the places of its outermost type names outside of type
arguments. -/
theorem type_names_are_outermost (kinds : List String) (source : Source) (root : Node) :
    (∃ picked, root.Picks (Cursor.IsTopmost (·.isOneOf kinds)) picked ∧
      root.outermost kinds = picked.map Cursor.node) ∧
    (root.IsLaidOut → (root.outermost kinds).Pairwise fun a b => a.stop ≤ b.start) ∧
    (∃ picked, root.Picks (IsTypeName ["type_identifier", "scoped_type_identifier"]) picked ∧
      Java.typeNames source root =
        picked.map fun c => (dotted (source.text c.node), c.node)) ∧
    (∃ picked, root.Picks (IsTypeName ["type_identifier", "stable_type_identifier"]) picked ∧
      Scala.typeNames source root =
        picked.map fun c => (dotted (source.text c.node), c.node)) := by
  refine ⟨⟨_, root.picks_filter _, ?_⟩, fun hlaid => ?_,
    exists_picks_names (by decide) source root, exists_picks_names (by decide) source root⟩
  · rw [Node.outermost_eq_topmost, Node.map_node_filter_places]
  · rw [Node.outermost_eq_topmost]
    exact hlaid.pairwise_topmost root

/-- The clause `implements Left<Item>, a.Right`. -/
def interfaceList : Node :=
  let node (id : Nat) (kind : String) (start stop : Nat) (children : List Node) : Node :=
    .mk ⟨id, kind, "", true, start, stop⟩ children
  node 0 "super_interfaces" 0 30
    [node 1 "type_list" 11 30
      [node 2 "generic_type" 11 21
        [node 3 "type_identifier" 11 15 [],
          node 4 "type_arguments" 15 21 [node 5 "type_identifier" 16 20 []]],
        node 6 "scoped_type_identifier" 23 30
          [node 7 "type_identifier" 23 24 [], node 8 "type_identifier" 25 30 []]]]

theorem type_names_are_outermost_interfaces : interfaceList.IsLaidOut ∧
    (interfaceList.outermost Java.typeNameKinds).map Node.id = [3, 4, 6] ∧
    (interfaceList.outermost Java.typeNameKinds).Pairwise fun a b => a.stop ≤ b.start := by
  have hlaid : interfaceList.IsLaidOut := by decide
  refine ⟨hlaid, ?_, (type_names_are_outermost _ (.plain .empty) interfaceList).2.1 hlaid⟩
  rw [Node.outermost_eq_topmost]
  decide

end CodeAtlas.Grammar
