import CodeAtlas.Proofs.Graph.Reachability
import Mathlib.Data.List.Sort
/-!
The cycles of a graph are its strongly connected components that contain an edge. A component is the
list of the nodes that lie on a closed walk with a given one; a search from the least node of each
finds every component once, in the order of these least nodes (`cycles_eq`).
-/
namespace CodeAtlas.Cycles
open Relation

/-- Each of two nodes can be reached from the other. -/
def Joined (step : Nat → Nat → Prop) (a b : Nat) : Prop :=
  ReflTransGen step a b ∧ ReflTransGen step b a

/-- A list holds, in increasing order, the nodes joined with a node on a closed walk. -/
structure IsClass (step : Nat → Nat → Prop) (c : List Nat) : Prop where
  sorted : c.Pairwise (· < ·)
  mem : ∃ v, TransGen step v v ∧ ∀ u, u ∈ c ↔ Joined step v u

section Classes

variable {step : Nat → Nat → Prop} {a b : Nat}

theorem Joined.refl (a : Nat) : Joined step a a :=
  ⟨.refl, .refl⟩

theorem Joined.symm (h : Joined step a b) : Joined step b a :=
  ⟨h.2, h.1⟩

theorem Joined.trans {c : Nat} (h : Joined step a b) (h' : Joined step b c) : Joined step a c :=
  ⟨h.1.trans h'.1, h'.2.trans h.2⟩

/-- What is joined with a node on a closed walk lies on one too. -/
theorem Joined.closed (h : Joined step a b) (ha : TransGen step a a) : TransGen step b b :=
  (TransGen.trans_right h.2 ha).trans_left h.1

/-- Two nodes that are joined lie on a closed walk. -/
theorem Joined.closed_of_ne (h : Joined step a b) (hab : a ≠ b) : TransGen step a a := by
  have hwalk := (reflTransGen_iff_eq_or_transGen.mp h.1).resolve_left hab.symm
  exact hwalk.trans_left h.2

/-- Lists in increasing order with the same members are equal. -/
theorem eq_of_sorted {c c' : List Nat} (hc : c.Pairwise (· < ·)) (hc' : c'.Pairwise (· < ·))
    (hmem : ∀ u, u ∈ c ↔ u ∈ c') : c = c' :=
  hc.eq_of_mem_iff hc' hmem

/-- A class holds what is joined with any of its nodes. -/
theorem IsClass.mem_iff {c : List Nat} (h : IsClass step c) (ha : a ∈ c) (u : Nat) :
    u ∈ c ↔ Joined step a u := by
  obtain ⟨v, -, hv⟩ := h.mem
  have hva := (hv a).mp ha
  rw [hv]
  exact ⟨hva.symm.trans, hva.trans⟩

theorem IsClass.closed {c : List Nat} (h : IsClass step c) (ha : a ∈ c) : TransGen step a a := by
  obtain ⟨v, hclosed, hv⟩ := h.mem
  exact ((hv a).mp ha).closed hclosed

/-- Two classes with a common node are one. -/
theorem IsClass.eq_of_mem {c c' : List Nat} (h : IsClass step c) (h' : IsClass step c')
    (ha : a ∈ c) (ha' : a ∈ c') : c = c' :=
  eq_of_sorted h.sorted h'.sorted fun u => (h.mem_iff ha u).trans (h'.mem_iff ha' u).symm

end Classes

def Linked (edges : List (Nat × Nat)) (a b : Nat) : Prop :=
  (a, b) ∈ edges

def classOf (size : Nat) (edges : List (Nat × Nat)) (v : Nat) : List Nat :=
  component (adjacency size edges) (adjacency size (edges.map Prod.swap)) v

/-- Whether a node is the first of a class that makes a cycle. -/
def leads (size : Nat) (edges : List (Nat × Nat)) (v : Nat) : Bool :=
  isCycle (adjacency size edges) (classOf size edges v) &&
    (classOf size edges v).head? == some v

def leaders (size : Nat) (edges : List (Nat × Nat)) (n : Nat) : List (List Nat) :=
  ((List.range n).filter (leads size edges)).map (classOf size edges)

theorem leaders_succ (size : Nat) (edges : List (Nat × Nat)) (n : Nat) :
    leaders size edges (n + 1) =
      leaders size edges n ++ if leads size edges n then [classOf size edges n] else [] := by
  unfold leaders
  rw [List.range_succ, List.filter_append, List.map_append]
  cases h : leads size edges n <;> simp [h]

theorem classOf_sorted (size : Nat) (edges : List (Nat × Nat)) (v : Nat) :
    (classOf size edges v).Pairwise (· < ·) :=
  List.pairwise_lt_range.filter _

/-- The head of an ascending list is its least member. -/
theorem head?_eq_some_iff_least {c : List Nat} (hc : c.Pairwise (· < ·)) {v : Nat} (hv : v ∈ c) :
    c.head? = some v ↔ ∀ u ∈ c, v ≤ u := by
  cases c with
  | nil => simp at hv
  | cons w rest =>
    have hleast : ∀ u ∈ rest, w < u := fun u => List.rel_of_pairwise_cons hc
    rw [List.head?_cons, Option.some.injEq]
    constructor
    · rintro rfl u hu
      rcases List.mem_cons.mp hu with rfl | hu
      · exact le_rfl
      · exact (hleast u hu).le
    · intro h
      have hw := h w List.mem_cons_self
      rcases List.mem_cons.mp hv with rfl | hv
      · rfl
      · exact absurd (hleast v hv) (by omega)

section Graph

variable {size : Nat} {edges : List (Nat × Nat)} (hedges : ∀ e ∈ edges, e.1 < size ∧ e.2 < size)
include hedges

theorem follows_next : Follows (adjacency size edges) = Linked edges := by
  funext a b
  rw [follows_adjacency]
  exact propext (and_iff_right_of_imp fun h => (hedges _ h).1)

theorem follows_previous :
    Follows (adjacency size (edges.map Prod.swap)) = Function.swap (Linked edges) := by
  funext a b
  have hmem : (a, b) ∈ edges.map Prod.swap ↔ (b, a) ∈ edges := by simp
  rw [follows_adjacency, hmem]
  exact propext (and_iff_right_of_imp fun h => (hedges _ h).2)

/-- A class holds what is joined with its node. -/
theorem mem_classOf {v : Nat} (hv : v < size) (u : Nat) :
    u ∈ classOf size edges v ↔ Joined (Linked edges) v u := by
  have hforward : (reached (adjacency size edges) v).getD u false = true ↔
      ReflTransGen (Follows (adjacency size edges)) v u := by
    refine reached_iff ?_ (by rwa [adjacency_size]) u
    rw [follows_next hedges, adjacency_size]
    exact fun a b h => (hedges _ h).2
  have hbackward : (reached (adjacency size (edges.map Prod.swap)) v).getD u false = true ↔
      ReflTransGen (Follows (adjacency size (edges.map Prod.swap))) v u := by
    refine reached_iff ?_ (by rwa [adjacency_size]) u
    rw [follows_previous hedges, adjacency_size]
    exact fun a b h => (hedges _ h).1
  rw [follows_next hedges] at hforward
  rw [follows_previous hedges, reflTransGen_swap] at hbackward
  have hsmall : ReflTransGen (Linked edges) v u → u < size := by
    intro h
    rcases ReflTransGen.cases_tail h with rfl | ⟨w, -, hw⟩
    · exact hv
    · exact (hedges _ hw).2
  rw [classOf, component, List.mem_filter, List.mem_range, adjacency_size, Bool.and_eq_true,
    hforward, hbackward]
  exact and_iff_right_of_imp fun h => hsmall h.1

theorem lt_of_closed {v : Nat} (h : TransGen (Linked edges) v v) : v < size := by
  obtain ⟨w, hw, -⟩ := TransGen.head'_iff.mp h
  exact (hedges _ hw).1

/-- A class makes a cycle if its node lies on a closed walk. -/
theorem isCycle_classOf {v : Nat} (hv : v < size) :
    isCycle (adjacency size edges) (classOf size edges v) = true ↔
      TransGen (Linked edges) v v := by
  have hself : v ∈ classOf size edges v := (mem_classOf hedges hv v).mpr (.refl v)
  have hmem := mem_classOf hedges hv
  have hsorted := classOf_sorted size edges v
  match hc : classOf size edges v with
  | [] => rw [hc] at hself; simp at hself
  | [w] =>
    rw [hc] at hself hmem
    obtain rfl := List.mem_singleton.mp hself
    have hloop : isCycle (adjacency size edges) [v] = true ↔ Linked edges v v := by
      rw [isCycle, List.contains_iff_mem]
      exact iff_of_eq (congrFun (congrFun (follows_next hedges) v) v)
    rw [hloop]
    constructor
    · exact .single
    · intro h
      obtain ⟨u, hu, hback⟩ := TransGen.head'_iff.mp h
      obtain rfl := List.mem_singleton.mp ((hmem u).mpr ⟨.single hu, hback⟩)
      exact hu
  | w :: u :: rest =>
    have hlt : w < u := List.rel_of_pairwise_cons (hc ▸ hsorted) List.mem_cons_self
    have hw := (hmem w).mp (by rw [hc]; simp)
    have hu := (hmem u).mp (by rw [hc]; simp)
    have hclosed := (hw.symm.trans hu).closed_of_ne hlt.ne
    exact iff_of_true rfl (hw.symm.closed hclosed)

theorem classOf_isClass {v : Nat} (h : TransGen (Linked edges) v v) :
    IsClass (Linked edges) (classOf size edges v) :=
  ⟨classOf_sorted size edges v, v, h, mem_classOf hedges (lt_of_closed hedges h)⟩

/-- The first node of a class is the least of the nodes that are joined with it. -/
theorem leads_iff_least {v : Nat} (hv : v < size) :
    leads size edges v = true ↔
      TransGen (Linked edges) v v ∧ ∀ u, Joined (Linked edges) v u → v ≤ u := by
  have hself : v ∈ classOf size edges v := (mem_classOf hedges hv v).mpr (.refl v)
  rw [leads, Bool.and_eq_true, isCycle_classOf hedges hv, beq_iff_eq,
    head?_eq_some_iff_least (classOf_sorted size edges v) hself]
  simp only [mem_classOf hedges hv]

/-- Every class has a first node. -/
theorem exists_leads {v : Nat} (h : TransGen (Linked edges) v v) :
    ∃ w, w ≤ v ∧ Joined (Linked edges) v w ∧ leads size edges w = true := by
  have hself : ∃ w, Joined (Linked edges) v w := ⟨v, .refl v⟩
  classical
  have hjoined := Nat.find_spec hself
  refine ⟨Nat.find hself, Nat.find_min' hself (.refl v), hjoined, ?_⟩
  have hclosed := hjoined.closed h
  rw [leads_iff_least hedges (lt_of_closed hedges hclosed)]
  exact ⟨hclosed, fun u hu => Nat.find_min' hself (hjoined.trans hu)⟩

/-- A node that the search skips is not the first of a class: it has no edges on one side, or its
class was found before. -/
theorem not_leads_of_skipped {n : Nat} (hn : n < size)
    (h : ((adjacency size edges).getD n []).isEmpty = true ∨
      ((adjacency size (edges.map Prod.swap)).getD n []).isEmpty = true ∨
      ∃ c ∈ leaders size edges n, n ∈ c) : leads size edges n = false := by
  rw [Bool.eq_false_iff, ne_eq, leads_iff_least hedges hn]
  rintro ⟨hclosed, hleast⟩
  rcases h with hout | hin | ⟨c, hc, hmem⟩
  · obtain ⟨u, hu, -⟩ := TransGen.head'_iff.mp hclosed
    have hu' : Follows (adjacency size edges) n u := follows_next hedges ▸ hu
    rw [Follows, List.isEmpty_iff.mp hout] at hu'
    simp at hu'
  · obtain ⟨u, -, hu⟩ := TransGen.tail'_iff.mp hclosed
    have hu' : Follows (adjacency size (edges.map Prod.swap)) n u := follows_previous hedges ▸ hu
    rw [Follows, List.isEmpty_iff.mp hin] at hu'
    simp at hu'
  · obtain ⟨w, hw, rfl⟩ := List.mem_map.mp hc
    have hlt : w < n := List.mem_range.mp (List.mem_filter.mp hw).1
    have hjoined := (mem_classOf hedges (hlt.trans hn) n).mp hmem
    exact absurd (hleast w hjoined.symm) (by omega)

/-- A node whose class makes a cycle is the first of it unless the class was found before. -/
theorem leads_of_new {n : Nat} (hn : n < size) (hnew : ∀ c ∈ leaders size edges n, n ∉ c) :
    leads size edges n = isCycle (adjacency size edges) (classOf size edges n) := by
  rw [Bool.eq_iff_iff, leads_iff_least hedges hn, isCycle_classOf hedges hn]
  refine and_iff_left_of_imp fun hclosed => ?_
  obtain ⟨w, hwn, hjoined, hleads⟩ := exists_leads hedges hclosed
  rcases Nat.lt_or_eq_of_le hwn with hlt | rfl
  · have hmem := (mem_classOf hedges (hlt.trans hn) n).mpr hjoined.symm
    have hfound : classOf size edges w ∈ leaders size edges n :=
      List.mem_map_of_mem (List.mem_filter.mpr ⟨List.mem_range.mpr hlt, hleads⟩)
    exact absurd hmem (hnew _ hfound)
  · exact ((leads_iff_least hedges hn).mp hleads).2

/-- The search, when the classes that begin below a bound are found. -/
theorem cyclesFrom_eq (k n : Nat) (hk : n + k = size) :
    cyclesFrom (adjacency size edges) (adjacency size (edges.map Prod.swap))
      (leaders size edges n).reverse (List.range' n k) = leaders size edges size := by
  -- The invariant is that the classes found are those whose first nodes were passed.
  induction k generalizing n with
  | zero =>
    rw [List.range'_zero, cyclesFrom, List.reverse_reverse, show n = size by omega]
  | succ k ih =>
    have hn : n < size := by omega
    have hstep := ih (n + 1) (by omega)
    rw [leaders_succ] at hstep
    rw [List.range'_succ, cyclesFrom]
    split
    · rename_i hskip
      have hleads := not_leads_of_skipped hedges hn (by
        simpa [or_assoc, List.any_reverse, List.any_eq_true] using hskip)
      simpa [hleads] using hstep
    · rename_i hskip
      have hnew : ∀ c ∈ leaders size edges n, n ∉ c := by
        simp only [Bool.or_eq_true, not_or, List.any_reverse, List.any_eq_true] at hskip
        exact fun c hc hmem => hskip.2 ⟨c, hc, List.contains_iff_mem.mpr hmem⟩
      rw [leads_of_new hedges hn hnew] at hstep
      change cyclesFrom _ _ (if isCycle _ (classOf size edges n) = true then
        classOf size edges n :: _ else _) _ = _
      by_cases hcycle : isCycle (adjacency size edges) (classOf size edges n) = true
      · rw [if_pos hcycle, List.reverse_append] at hstep
        rwa [if_pos hcycle]
      · rw [if_neg hcycle, List.append_nil] at hstep
        rwa [if_neg hcycle]

/-- The cycles are the classes of the nodes that are the first of their class, in order. -/
theorem cycles_eq : cycles size edges = leaders size edges size := by
  have h := cyclesFrom_eq hedges size 0 (Nat.zero_add size)
  rwa [← List.range_eq_range'] at h

/-- The cycles are the classes with a closed walk. -/
theorem mem_cycles (c : List Nat) : c ∈ cycles size edges ↔ IsClass (Linked edges) c := by
  rw [cycles_eq hedges, leaders, List.mem_map]
  constructor
  · rintro ⟨w, hw, rfl⟩
    obtain ⟨hlt, hleads⟩ := List.mem_filter.mp hw
    have hfirst := (leads_iff_least hedges (List.mem_range.mp hlt)).mp hleads
    exact classOf_isClass hedges hfirst.1
  · intro h
    obtain ⟨v, hclosed, hv⟩ := h.mem
    obtain ⟨w, -, hjoined, hleads⟩ := exists_leads hedges hclosed
    have hw := hjoined.closed hclosed
    have hlt := lt_of_closed hedges hw
    refine ⟨w, List.mem_filter.mpr ⟨List.mem_range.mpr hlt, hleads⟩, ?_⟩
    exact (classOf_isClass hedges hw).eq_of_mem h
      ((mem_classOf hedges hlt w).mpr (.refl w)) ((hv w).mpr hjoined)

/-- The cycles stand in the order of their first nodes. -/
theorem cycles_pairwise :
    (cycles size edges).Pairwise fun c c' => ∃ a ∈ c.head?, ∃ b ∈ c'.head?, a < b := by
  rw [cycles_eq hedges, leaders, List.pairwise_map]
  have hfirst : ∀ v ∈ (List.range size).filter (leads size edges),
      (classOf size edges v).head? = some v := by
    intro v hv
    have hleads := (List.mem_filter.mp hv).2
    rw [leads, Bool.and_eq_true, beq_iff_eq] at hleads
    exact hleads.2
  refine (List.pairwise_lt_range.filter _).imp_of_mem fun hv hw hlt => ?_
  exact ⟨_, hfirst _ hv, _, hfirst _ hw, hlt⟩

end Graph

end CodeAtlas.Cycles
