import CodeAtlas.Proofs.Pieces
import CodeAtlas.Proofs.Syntax.Outermost
/-!
The heritage of a declaration: the types that its inheritance clause names, each by one name that
stands outside of type arguments. A search of the clause that looks for names and does not go below
some stops lists these types exactly if each has such a name and the search finds in each piece of
the clause the names outside of arguments (`lists_iff`). If the search stops at some arguments only,
that is so exactly if no name that it comes to stands in one of the others (`lists_iff_clear`).
-/
namespace CodeAtlas.Grammar

open Syntax

/-- Whether a node holds the arguments that a type is applied to. -/
def isTypeArgument (n : Node) : Bool :=
  n.isOneOf ["type_arguments", "template_argument_list"] || n.field == "subscript"

def IsPlain (name : Node) : Prop :=
  ∀ m ∈ name.subtree, isTypeArgument m = false

instance (name : Node) : Decidable (IsPlain name) :=
  inferInstanceAs (Decidable (∀ m ∈ name.subtree, isTypeArgument m = false))

structure Heritage where
  clauses : List Node
  /-- Whether a node is a type as it is written. -/
  type : Node → Bool
  name : Node → Bool
  /-- Whether what a node holds belongs to a type, or to the clause, and names no supertype. -/
  argument : Node → Bool
  target : Node → String

namespace Heritage

variable (h : Heritage)

/-- The types of the clause and what stands between them. -/
def pieces : List Node :=
  h.clauses.flatMap (Node.topmost fun n => h.type n || h.argument n)

def types : List Node :=
  h.pieces.filter fun n => !h.argument n

def arguments : List Node :=
  h.pieces.filter h.argument

/-- The names of a type, which stand outside of its arguments. -/
def namesIn (n : Node) : List Node :=
  n.search h.name h.argument

def IsNamed : Prop :=
  ∀ t ∈ h.types, ∃ name, h.namesIn t = [name] ∧ IsPlain name

/-- Every type of the clause has one name, free of type arguments, and these names are listed in the
order of the types. -/
def Lists (targets : List String) : Prop :=
  h.IsNamed ∧ targets = (h.types.flatMap h.namesIn).map h.target

/-- Each name in the clause that is no stop, with neither a stop nor a name above it, is and stands
in none of the arguments that are overlooked. -/
def IsClear (stop overlooked : Node → Bool) : Prop :=
  ∀ p ∈ h.pieces, ∀ c ∈ p.places, c.IsFound h.name stop → stop c.node = false →
    c.IsClear overlooked

/-- What a clause is like that a search for names reads well: its types have names without
arguments, nothing in the arguments that the search overlooks passes for a type, and no type is
written in a way that the search leaves out. -/
structure IsRead (stop overlooked unread : Node → Bool) : Prop where
  named : h.IsNamed
  clear : h.IsClear stop overlooked
  whole : ∀ t ∈ h.types, unread t = false

variable {h} {stop : Node → Bool}

theorem types_flatMap_namesIn :
    h.types.flatMap h.namesIn = h.pieces.flatMap h.namesIn := by
  apply Pieces.flatMap_filter
  intro a _ ha
  apply Node.search_of_stop
  rwa [Bool.not_eq_false'] at ha

theorem clauses_flatMap_search
    (hstop : ∀ m, (h.name m || stop m) = true → (h.type m || h.argument m) = true) :
    h.clauses.flatMap (Node.search h.name stop) = h.pieces.flatMap (Node.search h.name stop) := by
  rw [pieces, List.flatMap_assoc]
  exact List.flatMap_congr fun c _ => Node.search_eq_flatMap hstop c

/-- A search that looks into too much, or into too little, lists the types exactly if it finds
their names and nothing else. -/
theorem lists_iff
    (hstop : ∀ m, (h.name m || stop m) = true → (h.type m || h.argument m) = true)
    (hside : (∀ p ∈ h.pieces, (h.namesIn p).Sublist (p.search h.name stop)) ∨
      ∀ p ∈ h.pieces, (p.search h.name stop).Sublist (h.namesIn p)) :
    h.Lists ((h.clauses.flatMap (Node.search h.name stop)).map h.target) ↔
      h.IsNamed ∧ ∀ p ∈ h.pieces, h.namesIn p = p.search h.name stop := by
  rw [Lists, clauses_flatMap_search hstop, types_flatMap_namesIn]
  refine and_congr_right fun _ => ⟨fun heq => ?_, fun hpieces => ?_⟩
  · -- Lists of one length, piece by piece parts of one another, are equal piece by piece.
    have hlength := congrArg List.length heq
    rw [List.length_map, List.length_map] at hlength
    rcases hside with hmore | hless
    · exact Pieces.eq_of_length_flatMap_le hmore (Nat.le_of_eq hlength)
    · have hfound := Pieces.eq_of_length_flatMap_le hless (Nat.le_of_eq hlength.symm)
      exact fun p hp => (hfound p hp).symm
  · rw [List.flatMap_congr hpieces]

/-- A search that stops at some arguments only lists the types exactly if it comes to no name in the
others. -/
theorem lists_iff_clear {overlooked : Node → Bool}
    (hstop : ∀ m, (h.name m || stop m) = true → (h.type m || h.argument m) = true)
    (hargument : h.argument = fun m => stop m || overlooked m) :
    h.Lists ((h.clauses.flatMap (Node.search h.name stop)).map h.target) ↔
      h.IsNamed ∧ h.IsClear stop overlooked := by
  have hnames (p : Node) : h.namesIn p = p.search h.name fun m => stop m || overlooked m := by
    rw [namesIn, hargument]
  rw [lists_iff hstop (.inl fun p _ => hnames p ▸ Node.search_or_sublist h.name stop overlooked p)]
  simp only [hnames, Node.search_or_eq_iff]
  exact Iff.rfl

theorem isRead_iff_of_whole {overlooked unread : Node → Bool}
    (hwhole : ∀ t ∈ h.types, unread t = false) :
    h.IsRead stop overlooked unread ↔ h.IsNamed ∧ h.IsClear stop overlooked :=
  ⟨fun hread => ⟨hread.named, hread.clear⟩, fun hread => ⟨hread.1, hread.2, hwhole⟩⟩

theorem isClear_of_none (h : Heritage) (stop : Node → Bool) : h.IsClear stop fun _ => false :=
  fun _ _ _ _ _ _ _ _ => rfl

end Heritage

end CodeAtlas.Grammar
