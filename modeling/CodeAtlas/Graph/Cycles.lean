/-!
Cycles of a directed graph on the numbers below some bound. Two nodes lie on one cycle if each can
be reached from the other; a node alone makes a cycle if it has an edge to itself.
-/
namespace CodeAtlas.Cycles

abbrev Adjacency := Array (List Nat)

/-- Marking a place that was not marked leaves one place less. -/
theorem count_false_set {marks : List Bool} {i : Nat} (h : marks[i]? = some false) :
    (marks.set i true).count false + 1 = marks.count false := by
  induction marks generalizing i with
  | nil => simp at h
  | cons b marks ih =>
    cases i with
    | zero =>
      simp only [List.getElem?_cons_zero, Option.some.injEq] at h
      subst h
      simp
    | succ i =>
      have := ih (by simpa using h)
      simp only [List.set_cons_succ, List.count_cons]
      omega

/-- Marks everything that can be reached from the nodes still to visit over nodes without a mark. -/
def mark (next : Adjacency) (marks : Array Bool) : List Nat → Array Bool
  | [] => marks
  | v :: rest =>
    if marks[v]? = some false then mark next (marks.setIfInBounds v true) (next.getD v [] ++ rest)
    else mark next marks rest
termination_by stack => (marks.toList.count false, stack.length)
decreasing_by
  · have := @count_false_set marks.toList v (by simpa using ‹marks[v]? = some false›)
    rw [Array.toList_setIfInBounds]
    exact Prod.Lex.left _ _ (by omega)
  · exact Prod.Lex.right _ (by simp)

def reached (next : Adjacency) (v : Nat) : Array Bool :=
  mark next (Array.replicate next.size false) [v]

def adjacency (size : Nat) (edges : List (Nat × Nat)) : Adjacency :=
  edges.foldl (fun next (a, b) => next.modify a (b :: ·)) (Array.replicate size [])

def component (next previous : Adjacency) (v : Nat) : List Nat :=
  let forward := reached next v
  let backward := reached previous v
  (List.range next.size).filter fun u => forward.getD u false && backward.getD u false

def isCycle (next : Adjacency) : List Nat → Bool
  | [v] => (next.getD v []).contains v
  | _ => true

/-- The cycles that the nodes from the given ones on begin: each begins with its least node. -/
def cyclesFrom (next previous : Adjacency) (found : List (List Nat)) : List Nat → List (List Nat)
  | [] => found.reverse
  | v :: rest =>
    if (next.getD v []).isEmpty || (previous.getD v []).isEmpty || found.any (·.contains v) then
      cyclesFrom next previous found rest
    else
      let c := component next previous v
      cyclesFrom next previous (if isCycle next c then c :: found else found) rest

/-- The cycles of a graph in the order of their least nodes, each in increasing order. -/
def cycles (size : Nat) (edges : List (Nat × Nat)) : List (List Nat) :=
  let next := adjacency size edges
  let previous := adjacency size (edges.map Prod.swap)
  cyclesFrom next previous [] (List.range size)

end CodeAtlas.Cycles
