import CodeAtlas.Proofs.Syntax.Walk
/-!
The topmost nodes of a tree with a property, those with no such node above them. The search for the
outermost nodes of some kinds finds these (`outermost_eq_topmost`). The topmost nodes with a
property stand below the topmost ones with any weaker property (`topmost_eq_flatMap`). A search for
names that does not look below some stops is a search of this kind (`filter_outermost`).
-/
namespace CodeAtlas.Syntax.Node

mutual
def topmost (p : Node → Bool) : Node → List Node
  | .mk label children =>
    if p (.mk label children) then [.mk label children] else topmosts p children

def topmosts (p : Node → Bool) : List Node → List Node
  | [] => []
  | n :: ns => topmost p n ++ topmosts p ns
end

variable {p q : Node → Bool}

theorem topmost_of_holds {n : Node} (h : p n = true) : n.topmost p = [n] := by
  obtain ⟨label, children⟩ := n
  rw [topmost, if_pos h]

theorem topmost_of_not_holds {n : Node} (h : ¬ p n = true) :
    n.topmost p = topmosts p n.children := by
  obtain ⟨label, children⟩ := n
  rw [topmost, if_neg h]
  rfl

theorem topmosts_eq_flatMap (ns : List Node) : topmosts p ns = ns.flatMap (topmost p) := by
  induction ns with
  | nil => rfl
  | cons n ns ih => rw [topmosts, ih, List.flatMap_cons]

mutual
theorem holds_of_mem_topmost (n : Node) : ∀ m ∈ n.topmost p, p m = true := by
  obtain ⟨label, children⟩ := n
  intro m hm
  rw [topmost] at hm
  split at hm
  · rename_i hroot
    rwa [List.mem_singleton.mp hm]
  · exact holds_of_mem_topmosts children m hm

theorem holds_of_mem_topmosts (ns : List Node) : ∀ m ∈ topmosts p ns, p m = true := by
  cases ns with
  | nil => exact fun m hm => absurd hm List.not_mem_nil
  | cons n ns =>
    intro m hm
    rw [topmosts, List.mem_append] at hm
    rcases hm with hm | hm
    · exact holds_of_mem_topmost n m hm
    · exact holds_of_mem_topmosts ns m hm
end

-- Going down stops at a node of the weaker kind; below it the search goes on.
mutual
/-- What has the stronger property stands below what has the weaker one. -/
theorem topmost_eq_flatMap (h : ∀ m, p m = true → q m = true) (n : Node) :
    n.topmost p = (n.topmost q).flatMap (topmost p) := by
  obtain ⟨label, children⟩ := n
  by_cases hq : q (.mk label children) = true
  · rw [topmost_of_holds hq, List.flatMap_singleton]
  · have hp : ¬ p (.mk label children) = true := fun hp => hq (h _ hp)
    rw [topmost_of_not_holds hp, topmost_of_not_holds hq]
    exact topmosts_eq_flatMap_topmost h children

theorem topmosts_eq_flatMap_topmost (h : ∀ m, p m = true → q m = true) (ns : List Node) :
    topmosts p ns = (topmosts q ns).flatMap (topmost p) := by
  cases ns with
  | nil => rfl
  | cons n ns =>
    rw [topmosts, topmosts, List.flatMap_append, ← topmost_eq_flatMap h n,
      ← topmosts_eq_flatMap_topmost h ns]
end

section Outermost

variable (kinds : List String)

def noteKinds : Visitor (List Node) := fun found c v =>
  if v == .enter && c.node.isOneOf kinds then (c.node :: found, false) else (found, true)

mutual
/-- The visitor that skips below what it notes collects the topmost nodes. -/
theorem tour_noteKinds (found : List Node) (trail : List Crumb) (n : Node) :
    n.tour (noteKinds kinds) found trail = (n.topmost (·.isOneOf kinds)).reverse ++ found := by
  obtain ⟨label, children⟩ := n
  unfold tour
  -- The visitor declines the children exactly where the recursion ends.
  by_cases hkind : (Node.mk label children).isOneOf kinds = true
  · rw [topmost_of_holds (p := (·.isOneOf kinds)) hkind]
    simp [noteKinds, hkind]
  · rw [topmost_of_not_holds (p := (·.isOneOf kinds)) hkind]
    have hinside := tours_noteKinds found (.mk label children) [] trail children
    simpa [noteKinds, hkind, Node.children] using hinside

theorem tours_noteKinds (found : List Node) (parent : Node) (before : List Node)
    (trail : List Crumb) (ns : List Node) :
    tours (noteKinds kinds) found parent before trail ns =
      (topmosts (·.isOneOf kinds) ns).reverse ++ found := by
  cases ns with
  | nil => rfl
  | cons n after =>
    rw [tours, tour_noteKinds found _ n, tours_noteKinds _ _ _ _ after, topmosts,
      List.reverse_append, List.append_assoc]
end

/-- The search for some kinds finds the topmost nodes of these kinds. -/
theorem outermost_eq_topmost (n : Node) : n.outermost kinds = n.topmost (·.isOneOf kinds) := by
  have htour := tour_noteKinds kinds [] [] n
  rw [List.append_nil, ← traverse_eq_tour] at htour
  rw [outermost, ← List.reverse_reverse (n.topmost _), ← htour]
  rfl

end Outermost

section Search

/-- The topmost names of a tree that do not stand below a stop. -/
def search (name stop : Node → Bool) (n : Node) : List Node :=
  (n.topmost fun m => name m || stop m).filter fun m => !stop m

variable {name stop : Node → Bool}

theorem search_of_stop {n : Node} (h : stop n = true) : n.search name stop = [] := by
  have hroot : (name n || stop n) = true := by rw [h, Bool.or_true]
  rw [search, topmost_of_holds hroot, List.filter_cons_of_neg (by simp [h]), List.filter_nil]

theorem search_of_name {n : Node} (h : name n = true) (hstop : stop n = false) :
    n.search name stop = [n] := by
  have hroot : (name n || stop n) = true := by rw [h, Bool.true_or]
  rw [search, topmost_of_holds hroot, List.filter_cons_of_pos (by simp [hstop]), List.filter_nil]

theorem search_of_other {n : Node} (h : name n = false) (hstop : stop n = false) :
    n.search name stop = n.children.flatMap (search name stop) := by
  have hroot : ¬ (name n || stop n) = true := by rw [h, hstop]; exact Bool.false_ne_true
  rw [search, topmost_of_not_holds hroot, topmosts_eq_flatMap, List.filter_flatMap]
  rfl

/-- A search may go in two steps, first to the nodes with a weaker property. -/
theorem search_eq_flatMap (h : ∀ m, (name m || stop m) = true → q m = true) (n : Node) :
    n.search name stop = (n.topmost q).flatMap (search name stop) := by
  rw [search, topmost_eq_flatMap h n, List.filter_flatMap]
  rfl

theorem isOneOf_append {kinds others : List String} {n : Node} :
    n.isOneOf (kinds ++ others) = (n.isOneOf kinds || n.isOneOf others) := by
  simp [isOneOf]

theorem isOneOf_singleton {kind : String} {n : Node} : n.isOneOf [kind] = (n.kind == kind) := by
  rw [isOneOf, List.contains_cons, List.contains_nil, Bool.or_false]

/-- Looking for names and stops together and dropping the stops is a search. -/
theorem filter_outermost (kinds stops : List String) (n : Node) :
    (n.outermost (kinds ++ stops)).filter (fun m => !m.isOneOf stops) =
      n.search (·.isOneOf kinds) (·.isOneOf stops) := by
  rw [outermost_eq_topmost, search]
  simp only [isOneOf_append]

theorem filter_outermost_kind (kinds : List String) (stop : String) (n : Node) :
    (n.outermost (kinds ++ [stop])).filter (fun m => m.kind != stop) =
      n.search (·.isOneOf kinds) (·.isOneOf [stop]) := by
  rw [← filter_outermost]
  simp only [isOneOf_singleton]
  rfl

/-- Looking for names alone is a search without stops. -/
theorem outermost_eq_search (kinds : List String) (n : Node) :
    n.outermost kinds = n.search (·.isOneOf kinds) (·.isOneOf []) := by
  rw [← filter_outermost, List.append_nil]
  exact (List.filter_eq_self.mpr fun _ _ => rfl).symm

end Search

end CodeAtlas.Syntax.Node
