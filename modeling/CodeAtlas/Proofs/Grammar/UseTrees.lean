import CodeAtlas.Grammar.Rust
import CodeAtlas.Proofs.Grammar.Spelling
/-!
Use trees. Each leaf stands for one path: the names on the way to it and its own, without the `self`
or the wildcard at its end. The rules find these paths in their order if there is no comment among
the items of a list, if the comments inside the paths hold nothing but dots and blanks, and if no
leaf is a `self` alone; otherwise they find others (`use_paths_iff`).
-/
namespace CodeAtlas.Grammar.Rust

open Syntax

/-- A path as it is written; behind its last colons it may lack a name. -/
structure WrittenPath where
  closed : Bool
  text : List Char
  names : List String
  fillers : List (List Char)
  spells : Spells closed text names fillers

def WrittenPath.none : WrittenPath :=
  ⟨false, [], [], [], .start⟩

inductive UseTree where
  /-- A path, maybe with a new name behind it, or with a wildcard if it does not end with a name. -/
  | leaf (p : WrittenPath)
  | group (p : WrittenPath) (items : List UseTree)
  | comment

/-- A leaf of a use tree: the paths in front of the lists around it, the outermost first, and its
own. -/
structure UseLeaf where
  outer : List WrittenPath
  own : WrittenPath

namespace UseLeaf

variable (l : UseLeaf)

def way : List WrittenPath :=
  l.outer ++ [l.own]

def names : List String :=
  l.way.flatMap WrittenPath.names

def fillers : List (List Char) :=
  l.way.flatMap WrittenPath.fillers

end UseLeaf

namespace UseTree

mutual
def leaves : UseTree → List UseLeaf
  | leaf p => [⟨[], p⟩]
  | group p items => (leavesAmong items).map fun l => ⟨p :: l.outer, l.own⟩
  | comment => []

def leavesAmong : List UseTree → List UseLeaf
  | [] => []
  | t :: ts => leaves t ++ leavesAmong ts
end

mutual
/-- The number of comments that stand among the items of the lists. -/
def comments : UseTree → Nat
  | leaf _ => 0
  | group _ items => commentsAmong items
  | comment => 1

def commentsAmong : List UseTree → Nat
  | [] => 0
  | t :: ts => comments t + commentsAmong ts
end

end UseTree

section Written

variable (source : Source)

def pathKinds : List String :=
  ["identifier", "scoped_identifier", "crate", "self", "super", "metavariable"]

def WritesPath (n : Node) (p : WrittenPath) : Prop :=
  n.kind ∈ pathKinds ∧ p.closed = true ∧ (source.text n).toList = p.text

/-- The node writes a leaf: a path, a path with a new name, or a wildcard. -/
def WritesLeaf (n : Node) (p : WrittenPath) : Prop :=
  WritesPath source n p ∨
  (n.kind = "use_as_clause" ∧ ∃ m, n.child? "path" = some m ∧ WritesPath source m p) ∨
  (n.kind = "use_wildcard" ∧ p.closed = false ∧ (source.text n).toList = p.text ++ ['*'])

def WritesHead (n : Node) (p : WrittenPath) : Prop :=
  match n.child? "path" with
  | some m => WritesPath source m p
  | none => p = .none

mutual
def Writes (n : Node) : UseTree → Prop
  | .leaf p => WritesLeaf source n p
  | .group p items =>
    (n.kind = "scoped_use_list" ∧ WritesHead source n p ∧
      ∃ list, n.child? "list" = some list ∧ list.kind = "use_list" ∧
        WritesAll list.namedChildren items) ∨
    (n.kind = "use_list" ∧ p = .none ∧ WritesAll n.namedChildren items)
  | .comment => n.kind ∈ ["line_comment", "block_comment"]

def WritesAll : List Node → List UseTree → Prop
  | [], [] => True
  | n :: ns, t :: ts => Writes n t ∧ WritesAll ns ts
  | _, _ => False
end

end Written

def withoutSelf (names : List String) : List String :=
  if names.getLast? = some "self" then names.dropLast else names

def UseLeaf.path (l : UseLeaf) : String :=
  Text.dotJoin (if l.own.closed then withoutSelf l.names else l.names)

/-- The comments inside the paths of a leaf hold no step, and its path is no `self` alone. -/
structure UseLeaf.Plain (l : UseLeaf) : Prop where
  fillers : ∀ f ∈ l.fillers, ¬ HasStep f
  named : l.own.closed = true → l.names ≠ ["self"]

section Rules

variable {source : Source} {outer : String} {n m : Node}

theorem usePathsIn_eq (role : String) (ns : List Node) : usePathsIn source role outer ns =
    ((ns.find? fun c => c.field == role).map (usePaths source outer)).getD [] := by
  induction ns with
  | nil => rfl
  | cons n ns ih =>
    rw [usePathsIn, List.find?_cons]
    cases n.field == role with
    | true => rfl
    | false => exact ih

theorem usePathsAll_eq (ns : List Node) :
    usePathsAll source outer ns = (ns.filter Node.named).flatMap (usePaths source outer) := by
  induction ns with
  | nil => rfl
  | cons n ns ih =>
    rw [usePathsAll, List.filter_cons]
    cases n.named with
    | true => rw [if_pos rfl, if_pos rfl, List.flatMap_cons, ih]
    | false => exact ih

theorem usePaths_of_rename (hkind : n.kind = "use_as_clause") (hm : n.child? "path" = some m) :
    usePaths source outer n = usePaths source outer m := by
  obtain ⟨label, children⟩ := n
  change label.kind = _ at hkind
  change children.find? _ = _ at hm
  rw [usePaths]
  dsimp only
  rw [hkind, beq_self_eq_true, if_pos rfl, usePathsIn_eq, hm]
  rfl

theorem usePaths_of_list (hkind : n.kind = "use_list") :
    usePaths source outer n = n.namedChildren.flatMap (usePaths source outer) := by
  obtain ⟨label, children⟩ := n
  change label.kind = _ at hkind
  rw [usePaths]
  simp only [hkind]
  exact usePathsAll_eq children

/-- A group is its list, below the path that is written before it. -/
theorem usePaths_of_group (hkind : n.kind = "scoped_use_list") (hm : n.child? "list" = some m) :
    usePaths source outer n =
      usePaths source (((n.child? "path").map fun p => below outer (source.text p)).getD outer)
        m := by
  obtain ⟨label, children⟩ := n
  change label.kind = _ at hkind
  change children.find? _ = _ at hm
  rw [usePaths]
  dsimp only
  rw [hkind, if_neg (by decide), beq_self_eq_true, if_pos rfl, usePathsIn_eq, hm, Source.textIn?,
    Option.map_map]
  rfl

theorem usePaths_of_wildcard (hkind : n.kind = "use_wildcard") :
    usePaths source outer n = [below outer (wildcardPath (source.text n))] := by
  obtain ⟨label, children⟩ := n
  change label.kind = _ at hkind
  rw [usePaths]
  simp only [hkind]
  rfl

/-- A path without the `self` at its end, as long as something stands before it. -/
def stripped (path : String) : String :=
  ((Text.before? ".self".toList path.toList).map String.ofList).getD path

/-- What is no alias, list or wildcard is a path of its own. -/
theorem usePaths_of_other (hkind : n.kind ∉
    ["use_as_clause", "scoped_use_list", "use_list", "use_wildcard"]) :
    usePaths source outer n = [stripped (below outer (source.text n))] := by
  obtain ⟨label, children⟩ := n
  change label.kind ∉ _ at hkind
  simp only [List.mem_cons, List.not_mem_nil, or_false, not_or] at hkind
  obtain ⟨hrename, hgroup, hlist, hwildcard⟩ := hkind
  rw [usePaths]
  simp only [beq_iff_eq, hrename, hgroup, hlist, hwildcard, if_false]
  rfl

theorem comment_other (h : n.kind ∈ ["line_comment", "block_comment"]) : n.kind ∉
    ["use_as_clause", "scoped_use_list", "use_list", "use_wildcard"] := by
  have hkinds : ∀ kind ∈ ["line_comment", "block_comment"], kind ∉
      ["use_as_clause", "scoped_use_list", "use_list", "use_wildcard"] := by decide
  exact hkinds _ h

theorem path_other (h : n.kind ∈ pathKinds) : n.kind ∉
    ["use_as_clause", "scoped_use_list", "use_list", "use_wildcard"] := by
  have hkinds : ∀ kind ∈ pathKinds, kind ∉
      ["use_as_clause", "scoped_use_list", "use_list", "use_wildcard"] := by decide
  exact hkinds _ h

end Rules

section Steps

/-- The steps that the rules see in a path. -/
def WrittenPath.steps (p : WrittenPath) : List String :=
  stepsOf (String.ofList p.text)

def UseLeaf.steps (l : UseLeaf) : List String :=
  l.way.flatMap WrittenPath.steps

/-- The path that the rules make of a leaf, behind the steps around it. -/
def UseLeaf.found (l : UseLeaf) (outer : List String) : String :=
  let steps := outer ++ l.steps
  Text.dotJoin (if l.own.closed ∧ 1 < steps.length then withoutSelf steps else steps)

/-- A path below others has the steps of both. -/
theorem below_dotJoin {outer : List String} (h : PlainNames outer) (path : String) :
    below (Text.dotJoin outer) path = Text.dotJoin (outer ++ stepsOf path) := by
  have hisEmpty (names : List String) (hnames : PlainNames names) :
      (Text.dotJoin names).isEmpty = true ↔ names = [] := by
    rw [String.isEmpty_iff, ← not_iff_not]
    exact Text.dotJoin_ne_empty_iff fun s hs => (hnames s hs).1
  unfold below
  dsimp only
  rw [dotted_eq_dotJoin]
  by_cases houter : outer = []
  · rw [if_pos ((hisEmpty outer h).mpr houter), houter, List.nil_append]
  rw [if_neg (mt (hisEmpty outer h).mp houter)]
  by_cases hsteps : stepsOf path = []
  · rw [if_pos ((hisEmpty _ (stepsOf_plain path)).mpr hsteps), hsteps, List.append_nil]
  · rw [if_neg (mt (hisEmpty _ (stepsOf_plain path)).mp hsteps),
      Text.dotJoin_append houter hsteps]

theorem ite_withoutSelf_of_not {steps : List String}
    (h : ¬ (1 < steps.length ∧ steps.getLast? = some "self")) :
    (if 1 < steps.length then withoutSelf steps else steps) = steps := by
  split
  · rename_i hlength
    exact if_neg fun hlast => h ⟨hlength, hlast⟩
  · rfl

/-- Of more than one step the last one is dropped if it is `self`. -/
theorem stripped_dotJoin {steps : List String} (h : PlainNames steps) :
    stripped (Text.dotJoin steps) =
      Text.dotJoin (if 1 < steps.length then withoutSelf steps else steps) := by
  have hself : ".self".toList = '.' :: "self".toList := rfl
  unfold stripped
  by_cases hdropped : 1 < steps.length ∧ steps.getLast? = some "self"
  · obtain ⟨hlength, hlast⟩ := hdropped
    obtain ⟨front, rfl⟩ := List.getLast?_eq_some_iff.mp hlast
    have hfront : front ≠ [] := by
      rintro rfl
      simp at hlength
    have hcut : Text.before? ".self".toList (Text.dotJoin (front ++ ["self"])).toList =
        some (Text.dotJoin front).toList := by
      rw [Text.before?_eq_some_iff, Text.dotJoin_append hfront (by simp), Text.dotJoin_singleton,
        String.toList_append, String.toList_append, List.append_assoc]
      rfl
    rw [hcut, if_pos hlength, withoutSelf, if_pos hlast, List.dropLast_concat, Option.map_some,
      Option.getD_some, String.ofList_toList]
  · rw [ite_withoutSelf_of_not hdropped]
    cases hcut : Text.before? ".self".toList (Text.dotJoin steps).toList with
    | none => rfl
    | some rest =>
      rw [Text.before?_eq_some_iff, hself] at hcut
      have hne : steps ≠ [] := by
        rintro rfl
        simp [Text.dotJoin] at hcut
      have hparts : steps = Text.dotParts (String.ofList rest) ++ ["self"] := by
        conv_lhs => rw [← Text.dotParts_dotJoin hne fun s hs => (h s hs).2,
          ← String.ofList_toList (s := Text.dotJoin steps), hcut, Text.dotParts_ofList_append]
        rfl
      have hpos := List.length_pos_of_ne_nil (Text.dotParts_ne_nil (String.ofList rest))
      refine absurd ⟨?_, ?_⟩ hdropped
      · rw [hparts, List.length_append, List.length_singleton]
        omega
      · rw [hparts, List.getLast?_concat]

/-- Behind colons a text ends with an edge of the filler there, or with the colons. -/
theorem IsFiller.last_behind_colons {gap front : List Char} (h : IsFiller gap) {c : Char}
    (hc : c ∈ (front ++ ':' :: ':' :: gap).getLast?) : isEdge c = true ∨ c = ':' ∧ gap = [] := by
  rw [List.getLast?_append_of_ne_nil _ (List.cons_ne_nil _ _), List.getLast?_cons,
    List.getLast?_cons] at hc
  cases hend : gap.getLast? with
  | none =>
    rw [hend] at hc
    exact .inr ⟨(Option.some.inj hc).symm, List.getLast?_eq_none_iff.mp hend⟩
  | some d =>
    rw [hend] at hc
    obtain rfl := Option.some.inj hc
    exact .inl (h.last d hend)

/-- Without the colons at its end a path has the same steps. -/
theorem nameSteps_dropEnds {text : List Char} {names : List String} {fillers : List (List Char)}
    (h : Spells false text names fillers) :
    nameSteps (Text.dropEnds [':', ':'] text) = nameSteps text := by
  have hkeep {s : List Char} (hs : EndsApart s) : Text.dropEnds [':', ':'] s = s := by
    rw [Text.dropEnds]
    cases hcut : Text.before? [':', ':'] s with
    | none => rfl
    | some rest =>
      rw [Text.before?_eq_some_iff] at hcut
      exact absurd rfl (hs ':' (by simp [hcut])).1
  have hdrop {s : List Char} (hs : EndsApart s) :
      Text.dropEnds [':', ':'] (s ++ [':', ':']) = s := by
    have hcut : Text.before? [':', ':'] (s ++ [':', ':']) = some s :=
      Text.before?_eq_some_iff.mpr rfl
    rw [Text.dropEnds, hcut]
    dsimp only
    rw [if_pos (by simp), hkeep hs]
  have hcolons {front gap : List Char} (hfront : EndsApart front) (hgap : IsFiller gap) :
      nameSteps (Text.dropEnds [':', ':'] (front ++ ':' :: ':' :: gap)) =
        nameSteps (front ++ ':' :: ':' :: gap) := by
    by_cases hnone : gap = []
    · rw [hnone, hdrop hfront, nameSteps_colons hfront beginsApart_nil]
      exact (List.append_nil _).symm
    · rw [hkeep]
      intro c hc
      have hedge := (hgap.last_behind_colons hc).resolve_right fun h => hnone h.2
      obtain ⟨hcolon, hdash, -⟩ := isEdge_spec hedge
      exact ⟨hcolon, hdash⟩
  cases h with
  | start => rw [hkeep endsApart_nil]
  | root hgap => exact hcolons endsApart_nil hgap
  | colons h hlead hgap => exact hcolons (hlead.endsApart_append h.endsApart) hgap

/-- In front of a wildcard the rules see the steps of the path. -/
theorem stepsOf_wildcardPath {p : WrittenPath} (hopen : p.closed = false) {text : String}
    (htext : text.toList = p.text ++ ['*']) : stepsOf (wildcardPath text) = p.steps := by
  obtain ⟨closed, path, names, fillers, hspells⟩ := p
  obtain rfl : closed = false := hopen
  have hlast : ∀ c ∈ path.getLast?, c ≠ '*' := by
    have hfiller (front : List Char) {gap : List Char} (hgap : IsFiller gap) :
        ∀ c ∈ (front ++ ':' :: ':' :: gap).getLast?, c ≠ '*' := by
      intro c hc
      rcases hgap.last_behind_colons hc with hedge | ⟨rfl, -⟩
      · exact (isEdge_spec hedge).2.2.2
      · decide
    cases hspells with
    | start => exact fun _ hc => nomatch hc
    | root hgap => exact hfiller [] hgap
    | colons _ _ hgap => exact hfiller _ hgap
  have htrim : Text.trimEndWhile (· == '*') (path ++ ['*']) = path := by
    rw [Text.trimEndWhile, List.reverse_append, List.reverse_singleton, List.singleton_append,
      List.dropWhile_cons, if_pos (beq_self_eq_true '*')]
    cases hrev : path.reverse with
    | nil => exact (List.reverse_eq_nil_iff.mp hrev).symm
    | cons c rest =>
      have hc : c ≠ '*' := hlast c (by rw [← List.head?_reverse, hrev]; rfl)
      rw [List.dropWhile_cons, if_neg (by simpa using hc), ← hrev, List.reverse_reverse]
  unfold stepsOf wildcardPath WrittenPath.steps stepsOf
  rw [htext, htrim, String.toList_ofList, String.toList_ofList, nameSteps_dropEnds hspells]

/-- A leaf is found behind the steps around it. -/
theorem usePaths_of_leaf {source : Source} {n : Node} {p : WrittenPath} {outer : List String}
    (h : WritesLeaf source n p) (houter : PlainNames outer) :
    usePaths source (Text.dotJoin outer) n = [UseLeaf.found ⟨[], p⟩ outer] := by
  have hsteps : UseLeaf.steps ⟨[], p⟩ = p.steps := List.flatMap_singleton ..
  have hplain : PlainNames (outer ++ p.steps) := houter.append (stepsOf_plain _)
  have hpath {m : Node} (hm : WritesPath source m p) :
      usePaths source (Text.dotJoin outer) m = [UseLeaf.found ⟨[], p⟩ outer] := by
    obtain ⟨hkind, hclosed, htext⟩ := hm
    have hwritten : source.text m = String.ofList p.text := by
      rw [← htext, String.ofList_toList]
    rw [usePaths_of_other (path_other hkind), below_dotJoin houter, hwritten]
    change [stripped (Text.dotJoin (outer ++ p.steps))] = _
    rw [stripped_dotJoin hplain, UseLeaf.found, hsteps]
    simp only [hclosed, true_and]
  rcases h with hm | ⟨hkind, m, hchild, hm⟩ | ⟨hkind, hopen, htext⟩
  · exact hpath hm
  · rw [usePaths_of_rename hkind hchild, hpath hm]
  · rw [usePaths_of_wildcard hkind, below_dotJoin houter, stepsOf_wildcardPath hopen htext,
      UseLeaf.found, hsteps]
    simp only [hopen, Bool.false_eq_true, false_and, if_false]

/-- The path before a group or wildcard goes behind the outer one. -/
theorem below_of_head {source : Source} {n : Node} {p : WrittenPath} {outer : List String}
    (h : WritesHead source n p) (houter : PlainNames outer) :
    (((n.child? "path").map fun m => below (Text.dotJoin outer) (source.text m)).getD
      (Text.dotJoin outer)) = Text.dotJoin (outer ++ p.steps) := by
  unfold WritesHead at h
  cases hchild : n.child? "path" with
  | none =>
    rw [hchild] at h
    obtain rfl : p = .none := h
    exact congrArg Text.dotJoin (List.append_nil outer).symm
  | some m =>
    rw [hchild] at h
    obtain ⟨-, -, htext⟩ := h
    have hwritten : source.text m = String.ofList p.text := by
      rw [← htext, String.ofList_toList]
    rw [Option.map_some, Option.getD_some, below_dotJoin houter, hwritten]
    rfl

theorem found_cons (p : WrittenPath) (l : UseLeaf) (outer : List String) :
    UseLeaf.found ⟨p :: l.outer, l.own⟩ outer = l.found (outer ++ p.steps) := by
  have hsteps : UseLeaf.steps ⟨p :: l.outer, l.own⟩ = p.steps ++ l.steps := List.flatMap_cons ..
  unfold UseLeaf.found
  rw [hsteps, List.append_assoc]

-- Both inductions are on the tree: a list passes the steps of its path on to its items.
mutual
/-- A use leads to as many paths as it has leaves and comments. -/
theorem length_usePaths {source : Source} (t : UseTree) (n : Node) (outer : String)
    (h : Writes source n t) :
    (usePaths source outer n).length = t.leaves.length + t.comments := by
  match t, h with
  | .leaf p, h =>
    rcases h with hm | ⟨hkind, m, hchild, hm⟩ | ⟨hkind, -, -⟩
    · rw [usePaths_of_other (path_other hm.1)]
      rfl
    · rw [usePaths_of_rename hkind hchild, usePaths_of_other (path_other hm.1)]
      rfl
    · rw [usePaths_of_wildcard hkind]
      rfl
  | .group p items, h =>
    rw [UseTree.leaves, List.length_map, UseTree.comments]
    rcases h with ⟨hkind, -, list, hchild, hlist, hitems⟩ | ⟨hkind, -, hitems⟩
    · rw [usePaths_of_group hkind hchild, usePaths_of_list hlist]
      exact length_usePaths_among items _ _ hitems
    · rw [usePaths_of_list hkind]
      exact length_usePaths_among items _ _ hitems
  | .comment, h =>
    rw [usePaths_of_other (comment_other h)]
    rfl

theorem length_usePaths_among {source : Source} (ts : List UseTree) (ns : List Node)
    (outer : String) (h : WritesAll source ns ts) :
    (ns.flatMap (usePaths source outer)).length =
      (UseTree.leavesAmong ts).length + UseTree.commentsAmong ts := by
  match ns, ts, h with
  | [], [], _ => rfl
  | n :: ns, t :: ts, h =>
    rw [List.flatMap_cons, List.length_append, length_usePaths t n outer h.1,
      length_usePaths_among ts ns outer h.2, UseTree.leavesAmong, List.length_append,
      UseTree.commentsAmong]
    omega
end

mutual
/-- Without comments in its lists, a tree has its leaves and nothing else. -/
theorem usePaths_eq {source : Source} (t : UseTree) (n : Node) (outer : List String)
    (houter : PlainNames outer) (h : Writes source n t) (hnone : t.comments = 0) :
    usePaths source (Text.dotJoin outer) n = t.leaves.map fun l => l.found outer := by
  match t, h with
  | .leaf p, h => exact usePaths_of_leaf h houter
  | .group p items, h =>
    rw [UseTree.leaves, List.map_map]
    simp only [Function.comp_def, found_cons]
    rcases h with ⟨hkind, hhead, list, hchild, hlist, hitems⟩ | ⟨hkind, rfl, hitems⟩
    · rw [usePaths_of_group hkind hchild, usePaths_of_list hlist, below_of_head hhead houter]
      exact usePaths_among_eq items _ _ (houter.append (stepsOf_plain _)) hitems hnone
    · have hsteps : outer ++ WrittenPath.none.steps = outer := List.append_nil outer
      rw [usePaths_of_list hkind, hsteps]
      exact usePaths_among_eq items _ _ houter hitems hnone
  | .comment, _ => cases hnone

/-- In a list without comments the paths are those of its leaves, in order. -/
theorem usePaths_among_eq {source : Source} (ts : List UseTree) (ns : List Node)
    (outer : List String) (houter : PlainNames outer) (h : WritesAll source ns ts)
    (hnone : UseTree.commentsAmong ts = 0) :
    ns.flatMap (usePaths source (Text.dotJoin outer)) =
      (UseTree.leavesAmong ts).map fun l => l.found outer := by
  match ns, ts, h with
  | [], [], _ => rfl
  | n :: ns, t :: ts, h =>
    rw [UseTree.commentsAmong] at hnone
    rw [List.flatMap_cons, UseTree.leavesAmong, List.map_append,
      usePaths_eq t n outer houter h.1 (by omega),
      usePaths_among_eq ts ns outer houter h.2 (by omega)]
end

end Steps

section Leaves

def sizeOfNames (names : List String) : Nat :=
  weight (names.map String.toList).flatten

theorem sizeOfNames_append (names more : List String) :
    sizeOfNames (names ++ more) = sizeOfNames names + sizeOfNames more := by
  rw [sizeOfNames, List.map_append, List.flatten_append, weight_append]
  rfl

theorem sizeOfNames_withoutSelf_le (names : List String) :
    sizeOfNames (withoutSelf names) ≤ sizeOfNames names := by
  unfold withoutSelf
  split
  · rename_i hlast
    obtain ⟨front, rfl⟩ := List.getLast?_eq_some_iff.mp hlast
    rw [List.dropLast_concat, sizeOfNames_append]
    omega
  · exact Nat.le_refl _

theorem sizeOfNames_stepsOf (s : List Char) :
    sizeOfNames (stepsOf (String.ofList s)) = weight (nameSteps s).flatten := by
  have hid : String.toList ∘ String.ofList = id := funext fun _ => String.toList_ofList
  rw [sizeOfNames, stepsOf, String.toList_ofList, List.map_map, hid, List.map_id]

def fillerWeight (fillers : List (List Char)) : Nat :=
  weight (fillers.map dotSeparated).flatten

theorem fillerWeight_append (fillers more : List (List Char)) :
    fillerWeight (fillers ++ more) = fillerWeight fillers + fillerWeight more := by
  rw [fillerWeight, List.map_append, List.flatten_append, weight_append]
  rfl

theorem fillerWeight_pos {fillers : List (List Char)} {f : List Char} (hf : f ∈ fillers)
    (hstep : HasStep f) : 0 < fillerWeight fillers := by
  obtain ⟨front, back, rfl⟩ := List.append_of_mem hf
  have hpos := (weight_pos_iff f).mpr hstep
  rw [fillerWeight_append, ← List.singleton_append, fillerWeight_append]
  have hone : fillerWeight [f] = weight (dotSeparated f) := by
    rw [fillerWeight, List.map_singleton, List.flatten_cons, List.flatten_nil, List.append_nil]
  omega

/-- The steps that the rules see on the way to a leaf are as long as its names and what the fillers
add. -/
theorem sizeOfNames_way (way : List WrittenPath) :
    sizeOfNames (way.flatMap WrittenPath.steps) =
      sizeOfNames (way.flatMap WrittenPath.names) +
        fillerWeight (way.flatMap WrittenPath.fillers) := by
  induction way with
  | nil => rfl
  | cons p way ih =>
    have hp : sizeOfNames p.steps = sizeOfNames p.names + fillerWeight p.fillers := by
      rw [WrittenPath.steps, sizeOfNames_stepsOf, p.spells.weight_nameSteps]
      rfl
    rw [List.flatMap_cons, List.flatMap_cons, List.flatMap_cons, sizeOfNames_append,
      sizeOfNames_append, fillerWeight_append, ih, hp]
    omega

namespace UseLeaf

variable (l : UseLeaf)

theorem names_plain : PlainNames l.names := by
  intro name hname
  obtain ⟨p, -, hp⟩ := List.mem_flatMap.mp hname
  have hname := p.spells.isName name hp
  exact ⟨hname.1, hname.dot_notMem⟩

theorem steps_plain : PlainNames l.steps := by
  intro name hname
  obtain ⟨p, -, hp⟩ := List.mem_flatMap.mp hname
  exact stepsOf_plain _ name hp

theorem steps_eq_names (h : ∀ f ∈ l.fillers, ¬ HasStep f) : l.steps = l.names := by
  refine List.flatMap_congr fun p hp => ?_
  have hclean : ∀ f ∈ p.fillers, ¬ HasStep f := fun f hf =>
    h f (List.mem_flatMap.mpr ⟨p, hp, hf⟩)
  have hid : String.ofList ∘ String.toList = id := funext fun _ => String.ofList_toList
  rw [WrittenPath.steps, stepsOf, String.toList_ofList, p.spells.nameSteps_eq hclean,
    List.map_map, hid, List.map_id]

theorem withoutSelf_plain {names : List String} (h : PlainNames names) :
    PlainNames (withoutSelf names) := by
  unfold withoutSelf
  split
  · exact fun s hs => h s (List.dropLast_subset _ hs)
  · exact h

/-- The last step on the way to a leaf with a name is the name, or no name. -/
theorem last_step (hclosed : l.own.closed = true) : ∃ steps last names name,
    l.steps = steps ++ [last] ∧ l.names = names ++ [name] ∧ (last = "self" → name = "self") := by
  obtain ⟨outer, ⟨closed, text, own, fillers, hspells⟩⟩ := l
  obtain rfl : closed = true := hclosed
  obtain ⟨steps, last, front, name, hsteps, rfl, hlast⟩ := hspells.last_step
  refine ⟨outer.flatMap WrittenPath.steps ++ steps.map String.ofList, String.ofList last,
    outer.flatMap WrittenPath.names ++ front, name, ?_, ?_, ?_⟩
  · rw [UseLeaf.steps, way, List.flatMap_append, List.flatMap_singleton, WrittenPath.steps,
      stepsOf, String.toList_ofList, hsteps, List.map_append, List.append_assoc]
    rfl
  · rw [names, way, List.flatMap_append, List.flatMap_singleton, List.append_assoc]
  · intro hself
    have hchars : last = "self".toList := by rw [← hself, String.toList_ofList]
    rcases hlast with hname | ⟨c, hc, hblank⟩
    · rw [← String.ofList_toList (s := name), ← hname, hself]
    · rw [hchars] at hc
      have hself' : IsName "self" := by decide
      rw [hself'.not_blank c hc] at hblank
      cases hblank

/-- If the steps are the names, the rules find the path of a leaf unless it is a `self` without
others. -/
theorem found_eq_path_iff_of_clean (hclean : ∀ f ∈ l.fillers, ¬ HasStep f) :
    l.found [] = l.path ↔ (l.own.closed = true → l.names ≠ ["self"]) := by
  unfold found path
  rw [List.nil_append, l.steps_eq_names hclean]
  by_cases hclosed : l.own.closed = true
  case neg => exact iff_of_true (by simp [hclosed]) fun h => absurd h hclosed
  simp only [hclosed, true_and, if_true, forall_const]
  by_cases hself : l.names = ["self"]
  · refine iff_of_false ?_ fun h => h hself
    rw [hself]
    decide
  · refine iff_of_true ?_ hself
    split
    · rfl
    · rename_i hlength
      rw [withoutSelf, if_neg]
      intro hlast
      obtain ⟨front, hnames⟩ := List.getLast?_eq_some_iff.mp hlast
      rw [hnames, List.length_append, List.length_singleton] at hlength
      have hfront : front = [] := List.length_eq_zero_iff.mp (by omega)
      exact hself (by rw [hnames, hfront, List.nil_append])

/-- What a filler adds to the steps stays in the path that the rules find. -/
theorem found_ne_path_of_step {f : List Char} (hf : f ∈ l.fillers) (hstep : HasStep f) :
    l.found [] ≠ l.path := by
  have hsize : sizeOfNames l.steps = sizeOfNames l.names + fillerWeight l.fillers :=
    sizeOfNames_way l.way
  have hmore := fillerWeight_pos hf hstep
  have hle := sizeOfNames_withoutSelf_le l.names
  unfold found path
  rw [List.nil_append]
  by_cases hclosed : l.own.closed = true
  case neg =>
    simp only [hclosed, Bool.false_eq_true, false_and, if_false]
    rw [Ne, l.steps_plain.dotJoin_inj l.names_plain]
    intro heq
    rw [heq] at hsize
    omega
  simp only [hclosed, true_and, if_true]
  obtain ⟨steps, last, names, name, hsteps, hnames, hself⟩ := l.last_step hclosed
  by_cases hdropped : 1 < l.steps.length ∧ last = "self"
  · obtain ⟨hlength, rfl⟩ := hdropped
    obtain rfl := hself rfl
    rw [if_pos hlength, Ne, (withoutSelf_plain l.steps_plain).dotJoin_inj
      (withoutSelf_plain l.names_plain), hsteps, hnames, withoutSelf,
      if_pos List.getLast?_concat, withoutSelf, if_pos List.getLast?_concat,
      List.dropLast_concat, List.dropLast_concat]
    rintro rfl
    rw [hsteps, hnames] at hsize
    omega
  · have hkept : ¬ (1 < l.steps.length ∧ l.steps.getLast? = some "self") := by
      rw [hsteps, List.getLast?_concat, Option.some.injEq, ← hsteps]
      exact hdropped
    rw [ite_withoutSelf_of_not hkept, Ne, l.steps_plain.dotJoin_inj
      (withoutSelf_plain l.names_plain)]
    intro heq
    rw [heq] at hsize
    omega

/-- The rules find the path of a leaf exactly if it is plain. -/
theorem found_eq_path_iff : l.found [] = l.path ↔ l.Plain := by
  by_cases hclean : ∀ f ∈ l.fillers, ¬ HasStep f
  · rw [l.found_eq_path_iff_of_clean hclean]
    exact ⟨fun hnamed => ⟨hclean, hnamed⟩, UseLeaf.Plain.named⟩
  · refine iff_of_false ?_ fun h => hclean h.fillers
    obtain ⟨f, hf, hstep⟩ : ∃ f ∈ l.fillers, HasStep f := by simpa using hclean
    exact l.found_ne_path_of_step hf hstep

end UseLeaf

end Leaves

/-- A use tree stands for the paths of its leaves and for nothing else exactly if no comment stands
among the items of its lists and every leaf is plain. -/
theorem use_paths_iff {source : Source} {n : Node} {t : UseTree} (h : Writes source n t) :
    usePaths source "" n = t.leaves.map UseLeaf.path ↔
      t.comments = 0 ∧ ∀ l ∈ t.leaves, l.Plain := by
  by_cases hnone : t.comments = 0
  · have hfound : usePaths source "" n = t.leaves.map fun l => l.found [] :=
      usePaths_eq t n [] (fun _ hs => nomatch hs) h hnone
    rw [hfound, List.map_inj_left, and_iff_right hnone]
    exact forall₂_congr fun l _ => l.found_eq_path_iff
  · refine iff_of_false (fun heq => hnone ?_) fun hall => hnone hall.1
    have hlength := congrArg List.length heq
    rw [length_usePaths t n "" h, List.length_map] at hlength
    omega

def selfOfList : Source × Node :=
  let node (id : Nat) (kind field : String) (start stop : Nat) (children : List Node) : Node :=
    .mk ⟨id, kind, field, true, start, stop⟩ children
  (.plain "use a::\x7bself\x7d;\n".toUTF8,
    node 0 "scoped_use_list" "argument" 4 13
      [node 1 "identifier" "path" 4 5 [],
        node 2 "use_list" "list" 7 13 [node 3 "self" "" 8 12 []]])

def WrittenPath.single (name : String) (h : IsName name) : WrittenPath :=
  ⟨true, name.toList, [name], [], .name .start h⟩

theorem use_paths_iff_self : usePaths selfOfList.1 "" selfOfList.2 = ["a"] := by
  let a : WrittenPath := .single "a" (by decide)
  let self : WrittenPath := .single "self" (by decide)
  have hwrites : Writes selfOfList.1 selfOfList.2 (.group a [.leaf self]) := by
    refine .inl ⟨rfl, ⟨by decide, rfl, by decide +kernel⟩, _, rfl, rfl, ?_, trivial⟩
    exact .inl ⟨by decide, rfl, by decide +kernel⟩
  have hplain : ∀ l ∈ (UseTree.group a [.leaf self]).leaves, l.Plain := by
    intro l hl
    obtain rfl := List.mem_singleton.mp hl
    exact ⟨fun f hf => absurd hf List.not_mem_nil, fun _ => by decide⟩
  rw [(use_paths_iff hwrites).mpr ⟨rfl, hplain⟩]
  decide

/-- The tree of the use declaration `use a::{b, // c` with `d};` on the next line. -/
def listWithComment : Source × Node :=
  let node (id : Nat) (kind field : String) (start stop : Nat) (children : List Node) : Node :=
    .mk ⟨id, kind, field, true, start, stop⟩ children
  (.plain "use a::\x7bb, // c\nd\x7d;\n".toUTF8,
    node 0 "scoped_use_list" "argument" 4 18
      [node 1 "identifier" "path" 4 5 [],
        node 2 "use_list" "list" 7 18
          [node 3 "identifier" "" 8 9 [], node 4 "line_comment" "" 11 15 [],
            node 5 "identifier" "" 16 17 []]])

/-- A comment in a list is taken for a leaf. -/
theorem use_paths_not_leaves : ¬ ∀ (source : Source) (n : Node) (t : UseTree),
    Writes source n t → usePaths source "" n = t.leaves.map UseLeaf.path := by
  intro h
  let name (s : String) (hs : IsName s) : UseTree := .leaf (.single s hs)
  have hwrites : Writes listWithComment.1 listWithComment.2 (.group (.single "a" (by decide))
      [name "b" (by decide), .comment, name "d" (by decide)]) := by
    refine .inl ⟨rfl, ⟨by decide, rfl, by decide +kernel⟩, _, rfl, rfl, ?_, ?_, ?_, trivial⟩
    · exact .inl ⟨by decide, rfl, by decide +kernel⟩
    · exact List.mem_cons_self
    · exact .inl ⟨by decide, rfl, by decide +kernel⟩
  have hlength := congrArg List.length (h _ _ _ hwrites)
  exact absurd hlength (by decide +kernel)

end CodeAtlas.Grammar.Rust
