import CodeAtlas.Grammar.Cpp
import CodeAtlas.Proofs.Syntax.Places
import CodeAtlas.Proofs.Syntax.Walk
/-!
The nesting of declarations. In a tree whose nodes can be told apart, the walk meets every node in
the scope that the declarations above it open, and in no other (`encounters_eq`). So the names of a
symbol follow from what stands above it (`scopes_are_ancestors`).
-/
namespace CodeAtlas.Grammar

open Syntax

def Encounter.frame? (e : Encounter) : Option Frame :=
  e.declaration.map fun d =>
    ⟨e.place.node.id, d.qualifiedName, d.declared.kind, d.declared.scopeOnly⟩

section Around

variable (g : Grammar) (source : Source)

def scopeInside (scope : Scope) (place : Cursor) : Scope :=
  match g.declaration? source scope place with
  | some d => scope.enter place.node.id d
  | none => scope

def scopeAround : List Crumb → Scope
  | [] => .file
  | crumb :: trail => g.scopeInside source (scopeAround trail) ⟨crumb.parent, trail⟩

def encounterAt (place : Cursor) : Encounter where
  place
  scope := g.scopeAround source place.trail
  declaration := g.declaration? source (g.scopeAround source place.trail) place

end Around

section Walk

variable {g : Grammar} {source : Source}

/-- The frames around a place are those of the declarations above it. -/
theorem frames_scopeAround (trail : List Crumb) :
    (g.scopeAround source trail).frames =
      ((Cursor.along trail).map (g.encounterAt source)).filterMap Encounter.frame? := by
  induction trail with
  | nil => rfl
  | cons crumb trail ih =>
    rw [scopeAround, scopeInside, Cursor.along, List.map_cons, List.filterMap_cons, ← ih]
    unfold Encounter.frame? encounterAt
    dsimp only
    cases g.declaration? source (g.scopeAround source trail) ⟨crumb.parent, trail⟩ with
    | none => rfl
    | some d => rfl

theorem step_enter (trail : List Crumb) (met : List Encounter) (n : Node) :
    g.step source (g.scopeAround source trail, met) ⟨n, trail⟩ .enter =
      ((g.scopeInside source (g.scopeAround source trail) ⟨n, trail⟩,
        g.encounterAt source ⟨n, trail⟩ :: met), true) := rfl

theorem leave_of_fresh {scope : Scope} {id : Nat} (h : ∀ f ∈ scope.frames, f.nodeId ≠ id) :
    scope.leave id = scope := by
  obtain ⟨frames⟩ := scope
  cases frames with
  | nil => rfl
  | cons f frames => exact if_neg (h f List.mem_cons_self)

/-- Leaving a node closes the scope that it opened and no other. -/
theorem leave_scopeInside {scope : Scope} {place : Cursor}
    (h : ∀ f ∈ scope.frames, f.nodeId ≠ place.node.id) :
    (g.scopeInside source scope place).leave place.node.id = scope := by
  unfold scopeInside
  split
  · exact if_pos rfl
  · exact leave_of_fresh h

theorem nodeId_of_mem_scopeInside {scope : Scope} {place : Cursor} {f : Frame}
    (hf : f ∈ (g.scopeInside source scope place).frames) :
    f ∈ scope.frames ∨ f.nodeId = place.node.id := by
  unfold scopeInside at hf
  split at hf
  · rcases List.mem_cons.mp hf with rfl | hf
    · exact .inr rfl
    · exact .inl hf
  · exact .inl hf

-- The induction carries that no open frame has the identity of a node to come, so that only the
-- node that opened a scope closes it.
mutual
/-- Over a subtree the walk meets each place in its own scope and ends in the scope it began in. -/
theorem tour_step (trail : List Crumb) (n : Node) (met : List Encounter)
    (hdistinct : (n.subtree.map Node.id).Nodup)
    (hfresh : ∀ f ∈ (g.scopeAround source trail).frames, f.nodeId ∉ n.subtree.map Node.id) :
    n.tour (g.step source) (g.scopeAround source trail, met) trail =
      (g.scopeAround source trail,
        ((n.placesFrom trail).map (g.encounterAt source)).reverse ++ met) := by
  obtain ⟨label, children⟩ := n
  let n : Node := .mk label children
  rw [Node.subtree, List.map_cons, List.nodup_cons] at hdistinct
  obtain ⟨hroot, hdistinct⟩ := hdistinct
  have hopen : ∀ f ∈ (g.scopeAround source trail).frames, f.nodeId ≠ n.id := by
    intro f hf heq
    exact hfresh f hf (heq ▸ List.mem_cons_self)
  have hinside : ∀ f ∈ (g.scopeInside source (g.scopeAround source trail) ⟨n, trail⟩).frames,
      f.nodeId ∉ (Node.subtrees children).map Node.id := by
    intro f hf hmem
    rcases nodeId_of_mem_scopeInside hf with hf | hid
    · exact hfresh f hf (List.mem_cons_of_mem _ hmem)
    · exact hroot (hid ▸ hmem)
  have hchildren := tours_step n [] trail children (g.encounterAt source ⟨n, trail⟩ :: met)
    hdistinct hinside
  unfold Node.tour
  rw [step_enter]
  dsimp only
  rw [if_pos rfl, hchildren]
  unfold step
  dsimp only
  rw [leave_scopeInside hopen, Node.placesFrom, List.map_cons, List.reverse_cons,
    List.append_assoc]
  rfl

/-- The same over a list of children, in the scope that their parent opens. -/
theorem tours_step (parent : Node) (before : List Node) (trail : List Crumb) (ns : List Node)
    (met : List Encounter) (hdistinct : ((Node.subtrees ns).map Node.id).Nodup)
    (hfresh : ∀ f ∈ (g.scopeInside source (g.scopeAround source trail) ⟨parent, trail⟩).frames,
      f.nodeId ∉ (Node.subtrees ns).map Node.id) :
    Node.tours (g.step source)
        (g.scopeInside source (g.scopeAround source trail) ⟨parent, trail⟩, met) parent before
        trail ns =
      (g.scopeInside source (g.scopeAround source trail) ⟨parent, trail⟩,
        ((Node.placesAmong parent before trail ns).map (g.encounterAt source)).reverse ++ met) := by
  cases ns with
  | nil => rfl
  | cons n after =>
    rw [Node.subtrees, List.map_append] at hdistinct hfresh
    obtain ⟨hfirst, hrest, -⟩ := List.nodup_append.mp hdistinct
    have hn := tour_step (⟨parent, before, after⟩ :: trail) n met hfirst
      fun f hf hmem => hfresh f hf (List.mem_append_left _ hmem)
    rw [scopeAround] at hn
    rw [Node.tours, hn, tours_step parent (n :: before) trail after _ hrest
      fun f hf hmem => hfresh f hf (List.mem_append_right _ hmem)]
    rw [Node.placesAmong, List.map_append, List.reverse_append, List.append_assoc]
end

variable {root : Node}

theorem traverse_step (hdistinct : (root.subtree.map Node.id).Nodup) :
    root.traverse (g.step source) (Scope.file, []) =
      (Scope.file, (root.places.map (g.encounterAt source)).reverse) := by
  have htour : root.tour (g.step source) (g.scopeAround source [], []) [] = _ :=
    tour_step [] root [] hdistinct fun f hf => absurd hf List.not_mem_nil
  rw [List.append_nil] at htour
  rw [root.traverse_eq_tour]
  exact htour

/-- The walk meets every place once, in the scope that the nodes above it open. -/
theorem encounters_eq (hdistinct : (root.subtree.map Node.id).Nodup) :
    g.encounters source root = root.places.map (g.encounterAt source) := by
  rw [encounters, traverse_step hdistinct, List.reverse_reverse]

end Walk

structure Encounter.Above (met : List Encounter) (e : Encounter) (above : List Encounter) :
    Prop where
  subset : above ⊆ met
  places : above.map Encounter.place = e.place.above

def innermostName? (above : List Encounter) : Option String :=
  (above.findSome? Encounter.declaration).map Declaration.qualifiedName

/-- The owner of a declaration below another one, with the owner that is written in it. -/
def extended (outer : Option String) : Option String → Option String
  | none => outer
  | some qualifier => some (outer.elim qualifier fun o => o ++ "." ++ qualifier)

/-- The scopes and names of a tree follow from what stands above. -/
structure FollowsAncestors (g : Grammar) (source : Source) (path : Path) (root : Node) :
    Prop where
  ended : (root.traverse (g.step source) (Scope.file, [])).1 = Scope.file
  visited : (g.encounters source root).map Encounter.place = root.places
  classified : ∀ e ∈ g.encounters source root,
    e.declaration.map Declaration.declared = g.classify source e.scope e.place
  frames : ∀ e ∈ g.encounters source root, ∃ above,
    e.Above (g.encounters source root) above ∧ e.scope.frames = above.filterMap Encounter.frame?
  /-- The owner of a symbol is the innermost declaration above, with what the symbol adds. -/
  symbols : ∀ s ∈ g.symbols source path root, ∃ e ∈ g.encounters source root, ∃ d above,
    g.symbolOf source path e = some s ∧ g.classify source e.scope e.place = some d ∧
      e.Above (g.encounters source root) above ∧
      s.parent = extended (innermostName? above) d.qualifier ∧
      s.qualifiedName = s.parent.elim d.name (fun p => p ++ "." ++ d.name) ∧ s.name = d.name

section Names

variable {g : Grammar} {source : Source} {path : Path} {root : Node}

/-- The first frame is that of the first declaration. -/
theorem map_qualified_head? (above : List Encounter) :
    (above.filterMap Encounter.frame?).head?.map Frame.qualified = innermostName? above := by
  rw [innermostName?]
  induction above with
  | nil => rfl
  | cons a above ih =>
    rw [List.filterMap_cons, List.findSome?_cons, Encounter.frame?]
    cases a.declaration with
    | none => exact ih
    | some d => rfl

theorem qualified?_scopeAround (place : Cursor) :
    (g.scopeAround source place.trail).qualified? =
      innermostName? (place.above.map (g.encounterAt source)) := by
  rw [Scope.qualified?, Scope.innermost?, frames_scopeAround, map_qualified_head?, Cursor.above]

theorem owner?_eq (scope : Scope) (d : Declared) :
    scope.owner? d = extended scope.qualified? d.qualifier := by
  unfold Scope.owner? extended
  cases d.qualifier with
  | none => rfl
  | some q => cases scope.qualified? <;> rfl

/-- A symbol has the names of its declaration. -/
theorem symbolOf_eq_some {e : Encounter} {s : Symbol}
    (h : g.symbolOf source path e = some s) : ∃ d, e.declaration = some d ∧
      s.name = d.declared.name ∧ s.qualifiedName = d.qualifiedName ∧ s.parent = d.parent := by
  unfold symbolOf at h
  split at h
  · cases h
  · rename_i d hd
    rw [Option.ite_none_left_eq_some] at h
    obtain ⟨-, hs⟩ := h
    obtain rfl := Option.some.inj hs
    exact ⟨d, hd, rfl, rfl, rfl⟩

theorem declaration_encounterAt (place : Cursor) :
    (g.encounterAt source place).declaration =
      (g.classify source (g.scopeAround source place.trail) place).map
        (g.scopeAround source place.trail).declare := rfl

/-- What is met above a place of a tree is met in the tree. -/
theorem above_encounterAt (hdistinct : (root.subtree.map Node.id).Nodup) {place : Cursor}
    (hplace : place ∈ root.places) :
    (g.encounterAt source place).Above (g.encounters source root)
      (place.above.map (g.encounterAt source)) := by
  constructor
  · intro e he
    obtain ⟨a, ha, rfl⟩ := List.mem_map.mp he
    rw [encounters_eq hdistinct]
    exact List.mem_map_of_mem (Node.mem_places_of_mem_above hplace ha)
  · rw [List.map_map]
    exact List.map_id _

end Names

/-- In a tree whose nodes can be told apart, the frames around a node are those of the nodes above
it that declare something, and the owner and the qualified name of a symbol follow from them. -/
theorem scopes_are_ancestors (g : Grammar) (source : Source) (path : Path) (root : Node)
    (hdistinct : (root.subtree.map Node.id).Nodup) : FollowsAncestors g source path root := by
  have hencounters : g.encounters source root = root.places.map (g.encounterAt source) :=
    encounters_eq hdistinct
  have hplace : ∀ e ∈ g.encounters source root,
      ∃ place ∈ root.places, g.encounterAt source place = e := by
    intro e he
    rwa [hencounters, List.mem_map] at he
  constructor
  case ended => rw [traverse_step hdistinct]
  case visited =>
    rw [hencounters, List.map_map]
    exact List.map_id _
  case classified =>
    intro e he
    obtain ⟨place, -, rfl⟩ := hplace e he
    rw [declaration_encounterAt, Option.map_map]
    exact congrFun Option.map_id _
  case frames =>
    intro e he
    obtain ⟨place, hmem, rfl⟩ := hplace e he
    exact ⟨_, above_encounterAt hdistinct hmem, frames_scopeAround place.trail⟩
  case symbols =>
    intro s hs
    obtain ⟨e, he, hsymbol⟩ := List.mem_filterMap.mp hs
    obtain ⟨place, hmem, rfl⟩ := hplace e he
    obtain ⟨d, hdeclaration, hname, hqualified, hparent⟩ := symbolOf_eq_some hsymbol
    rw [declaration_encounterAt] at hdeclaration
    obtain ⟨declared, hclassify, rfl⟩ := Option.map_eq_some_iff.mp hdeclaration
    refine ⟨_, he, declared, _, hsymbol, hclassify, above_encounterAt hdistinct hmem, ?_, ?_,
      hname⟩
    · rw [hparent]
      change (g.scopeAround source place.trail).owner? declared = _
      rw [owner?_eq, qualified?_scopeAround]
    · rw [hqualified, hparent]
      unfold Scope.declare
      dsimp only
      cases (g.scopeAround source place.trail).owner? declared <;> rfl

/-- A member that is written outside its type, in `namespace n { void A::f() {} }`. -/
def memberOutside : Source × Node :=
  let node (id : Nat) (kind field : String) (start stop : Nat) (children : List Node) : Node :=
    .mk ⟨id, kind, field, true, start, stop⟩ children
  (.plain "namespace n \x7b void A::f() \x7b\x7d \x7d\n".toUTF8,
    node 0 "translation_unit" "" 0 31
      [node 1 "namespace_definition" "" 0 30
        [node 2 "namespace_identifier" "name" 10 11 [],
          node 3 "declaration_list" "body" 12 30
            [node 4 "function_definition" "" 14 28
              [node 5 "primitive_type" "type" 14 18 [],
                node 6 "function_declarator" "declarator" 19 25
                  [node 7 "qualified_identifier" "declarator" 19 23
                    [node 8 "namespace_identifier" "scope" 19 20 [],
                      node 9 "identifier" "name" 22 23 []],
                    node 10 "parameter_list" "parameters" 23 25 []],
                node 11 "compound_statement" "body" 26 28 []]]]])

theorem scopes_are_ancestors_member : (memberOutside.2.subtree.map Node.id).Nodup ∧
    FollowsAncestors Cpp.rules memberOutside.1 ⟨"a.cpp"⟩ memberOutside.2 ∧
    (Cpp.rules.symbols memberOutside.1 ⟨"a.cpp"⟩ memberOutside.2).map
        (fun s => (s.qualifiedName, s.parent)) = [("n", none), ("n.A.f", some "n.A")] := by
  have hdistinct : (memberOutside.2.subtree.map Node.id).Nodup := by decide
  refine ⟨hdistinct, scopes_are_ancestors Cpp.rules memberOutside.1 ⟨"a.cpp"⟩ _ hdistinct, ?_⟩
  rw [symbols, encounters_eq hdistinct]
  decide +kernel

end CodeAtlas.Grammar
