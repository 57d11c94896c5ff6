import CodeAtlas.Proofs.Graph.Declaration
import CodeAtlas.Proofs.Text.Parts
import Mathlib.Data.List.Nodup
import Mathlib.Tactic.Common
/-!
The index of names. Its three tables together know, for every text, the positions of the
declarations with that name, with that proper end, and of the modules with that proper head, each in
the order of insertion.
-/
namespace CodeAtlas

theorem dotParts_properEnd {name : String} {n : Nat} (hn : n < (Text.dotParts name).length - 1) :
    Text.dotParts (Text.dotJoin ((Text.dotParts name).drop (n + 1))) =
      (Text.dotParts name).drop (n + 1) := by
  apply Text.dotParts_dotJoin_of_subset (s := name)
  · intro h
    have := List.drop_eq_nil_iff.mp h
    omega
  · exact List.drop_subset _ _

theorem dotParts_properHead {name : String} {n : Nat} (hn : n < (Text.dotParts name).length - 1) :
    Text.dotParts (Text.dotJoin ((Text.dotParts name).take (n + 1))) =
      (Text.dotParts name).take (n + 1) := by
  apply Text.dotParts_dotJoin_of_subset (s := name)
  · intro h
    have hl := congrArg List.length h
    simp only [List.length_take, List.length_nil] at hl
    omega
  · exact List.take_subset _ _

/-- The proper ends of a name are the names whose parts end its parts. -/
theorem mem_properEnds {name s : String} :
    s ∈ properEnds name ↔ ∃ front, front ≠ [] ∧ Text.dotParts name = front ++ Text.dotParts s := by
  simp only [properEnds, List.mem_map, List.mem_range]
  constructor
  · rintro ⟨n, hn, rfl⟩
    refine ⟨(Text.dotParts name).take (n + 1), ?_, ?_⟩
    · intro h
      have hl := congrArg List.length h
      simp only [List.length_take, List.length_nil] at hl
      omega
    · rw [dotParts_properEnd hn, List.take_append_drop]
  · rintro ⟨front, hne, hparts⟩
    have hf : 0 < front.length := List.length_pos_of_ne_nil hne
    have hs : 0 < (Text.dotParts s).length := List.length_pos_of_ne_nil (Text.dotParts_ne_nil s)
    refine ⟨front.length - 1, ?_, ?_⟩
    · rw [hparts, List.length_append]
      omega
    · rw [Nat.sub_add_cancel hf, hparts, List.drop_left, Text.dotJoin_dotParts]

/-- The proper heads of a name are the names whose parts begin its parts. -/
theorem mem_properHeads {name s : String} :
    s ∈ properHeads name ↔ ∃ back, back ≠ [] ∧ Text.dotParts name = Text.dotParts s ++ back := by
  simp only [properHeads, List.mem_map, List.mem_range]
  constructor
  · rintro ⟨n, hn, rfl⟩
    refine ⟨(Text.dotParts name).drop (n + 1), ?_, ?_⟩
    · intro h
      have := List.drop_eq_nil_iff.mp h
      omega
    · rw [dotParts_properHead hn, List.take_append_drop]
  · rintro ⟨back, hne, hparts⟩
    have hb : 0 < back.length := List.length_pos_of_ne_nil hne
    have hs : 0 < (Text.dotParts s).length := List.length_pos_of_ne_nil (Text.dotParts_ne_nil s)
    refine ⟨(Text.dotParts s).length - 1, ?_, ?_⟩
    · rw [hparts, List.length_append]
      omega
    · rw [Nat.sub_add_cancel hs, hparts, List.take_left, Text.dotJoin_dotParts]

/-- The proper ends of a name get shorter along the list. -/
theorem properEnds_pairwise (name : String) : (properEnds name).Pairwise
    fun s m => (Text.dotParts m).length < (Text.dotParts s).length := by
  rw [properEnds, List.pairwise_map]
  apply List.pairwise_lt_range.imp_of_mem
  intro i j hi hj hij
  have hi := List.mem_range.mp hi
  have hj := List.mem_range.mp hj
  rw [dotParts_properEnd hi, dotParts_properEnd hj, List.length_drop, List.length_drop]
  omega

/-- The proper heads of a name get longer along the list. -/
theorem properHeads_pairwise (name : String) : (properHeads name).Pairwise
    fun s m => (Text.dotParts s).length < (Text.dotParts m).length := by
  rw [properHeads, List.pairwise_map]
  apply List.pairwise_lt_range.imp_of_mem
  intro i j hi hj hij
  have hi := List.mem_range.mp hi
  have hj := List.mem_range.mp hj
  rw [dotParts_properHead hi, dotParts_properHead hj, List.length_take, List.length_take]
  omega

-- Names of different lengths are different, so no position enters a list twice.
theorem properEnds_nodup (name : String) : (properEnds name).Nodup := by
  refine (properEnds_pairwise name).imp ?_
  rintro s m hlt rfl
  exact Nat.lt_irrefl _ hlt

theorem properHeads_nodup (name : String) : (properHeads name).Nodup := by
  refine (properHeads_pairwise name).imp ?_
  rintro s m hlt rfl
  exact Nat.lt_irrefl _ hlt

namespace NameIndex

theorem getD_push (map : Std.HashMap String (List Nat)) (key s : String) (position : Nat) :
    (push map key position).getD s [] =
      map.getD s [] ++ if key = s then [position] else [] := by
  rw [push, Std.HashMap.getD_insert]
  by_cases h : key = s
  · simp [h]
  · simp [h]

/-- A position is pushed once under each of its keys. -/
theorem getD_foldl_push (keys : List String) (hk : keys.Nodup)
    (map : Std.HashMap String (List Nat)) (s : String) (position : Nat) :
    (keys.foldl (fun map key => push map key position) map).getD s [] =
      map.getD s [] ++ if s ∈ keys then [position] else [] := by
  induction keys generalizing map with
  | nil => simp
  | cons key keys ih =>
    obtain ⟨hfresh, hk⟩ := List.nodup_cons.mp hk
    rw [List.foldl_cons, ih hk, getD_push, List.append_assoc]
    congr 1
    by_cases h : key = s
    · subst h
      simp [hfresh]
    · simp [h, Ne.symm h]

theorem named_add (index : NameIndex) (name s : String) (isModule : Bool) (position : Nat) :
    (index.add name isModule position).named s =
      index.named s ++ if name = s then [position] else [] :=
  getD_push index.byName name s position

theorem ending_add (index : NameIndex) (name s : String) (isModule : Bool) (position : Nat) :
    (index.add name isModule position).ending s =
      index.ending s ++ if s ∈ properEnds name then [position] else [] :=
  getD_foldl_push _ (properEnds_nodup name) index.byEnd s position

theorem within_add (index : NameIndex) (name s : String) (isModule : Bool) (position : Nat) :
    (index.add name isModule position).within s =
      index.within s ++ if isModule = true ∧ s ∈ properHeads name then [position] else [] := by
  cases isModule with
  | false => simp [within, add]
  | true =>
    have h := getD_foldl_push _ (properHeads_nodup name) index.byHead s position
    simpa [within, add] using h

end NameIndex

def positions (p : Declaration → Prop) [DecidablePred p] (ds : List Declaration) : List Nat :=
  (List.range ds.length).filter fun i => (ds[i]?).any fun d => decide (p d)

section Positions

variable {p : Declaration → Prop} [DecidablePred p]

theorem mem_positions {ds : List Declaration} {i : Nat} :
    i ∈ positions p ds ↔ ∃ d, ds[i]? = some d ∧ p d := by
  simp only [positions, List.mem_filter, List.mem_range, Option.any_eq_true, decide_eq_true_eq]
  constructor
  · exact And.right
  · rintro ⟨d, hd, hp⟩
    exact ⟨(List.getElem?_eq_some_iff.mp hd).1, d, hd, hp⟩

theorem positions_pairwise (ds : List Declaration) : (positions p ds).Pairwise (· < ·) :=
  List.pairwise_lt_range.filter _

theorem positions_concat (ds : List Declaration) (d : Declaration) :
    positions p (ds ++ [d]) = positions p ds ++ if p d then [ds.length] else [] := by
  unfold positions
  rw [List.length_append, List.length_singleton, List.range_succ, List.filter_append]
  congr 1
  · apply List.filter_congr
    intro i hi
    rw [List.getElem?_append_left (List.mem_range.mp hi)]
  · by_cases hp : p d <;> simp [hp]

end Positions

namespace GraphBuilder

structure Indexes (b : GraphBuilder) (ds : List Declaration) : Prop where
  size : b.table.nodes.size = ds.length
  named : ∀ s, b.table.names.named s = positions (fun d => d.name = s) ds
  ending : ∀ s, b.table.names.ending s = positions (fun d => s ∈ properEnds d.name) ds
  within : ∀ s, b.table.names.within s =
    positions (fun d => d.kind = .module ∧ s ∈ properHeads d.name) ds

theorem indexes_empty : empty.Indexes [] := by
  refine ⟨rfl, fun s => ?_, fun s => ?_, fun s => ?_⟩
  · exact Std.HashMap.getD_empty
  · exact Std.HashMap.getD_empty
  · exact Std.HashMap.getD_empty

/-- Declaring a node keeps the index right. -/
theorem Indexes.declare {b : GraphBuilder} {ds : List Declaration} (h : b.Indexes ds)
    (d : Declaration) : (b.declare d).Indexes (ds ++ [d]) := by
  have hnames : (b.declare d).table.names =
      b.table.names.add d.name (d.kind == .module) ds.length := by
    rw [← h.size]
    rfl
  refine ⟨?_, fun s => ?_, fun s => ?_, fun s => ?_⟩
  · rw [declare_size, h.size, List.length_append, List.length_singleton]
  · rw [hnames, NameIndex.named_add, h.named, positions_concat]
  · rw [hnames, NameIndex.ending_add, h.ending, positions_concat]
  · rw [hnames, NameIndex.within_add, h.within, positions_concat]
    simp only [beq_iff_eq]

theorem foldl_declare_indexes (ds rest : List Declaration) {b : GraphBuilder}
    (h : b.Indexes ds) : (rest.foldl GraphBuilder.declare b).Indexes (ds ++ rest) := by
  induction rest generalizing ds b with
  | nil => simpa using h
  | cons d rest ih =>
    have hnext := ih (ds ++ [d]) (h.declare d)
    rwa [List.append_assoc, List.singleton_append] at hnext

/-- The index of the declared graph knows all declarations. -/
theorem declared_indexes (files : List FileFacts) :
    (declared files).Indexes (declarations files) :=
  foldl_declare_indexes [] (declarations files) indexes_empty

end GraphBuilder

end CodeAtlas
