import CodeAtlas.Proofs.Grammar.Extensions
import CodeAtlas.Proofs.Syntax.Walk
/-!
The sources of dependencies. The scope around a node is made of declarations that the walk has met
before, so a dependency starts at the module, at a symbol of the file, or at a scope that is no
symbol. Only implementations and extensions open such scopes, and they may name types of other files
(`sources_lie_in_file_iff`).
-/
namespace CodeAtlas.Grammar

open Syntax

structure Frame.IsOf (f : Frame) (d : Declaration) : Prop where
  qualified : f.qualified = d.qualifiedName
  scopeOnly : f.scopeOnly = d.declared.scopeOnly

/-- Every frame is that of a declaration that was met. -/
def Traced (frames : List Frame) (met : List Encounter) : Prop :=
  ∀ f ∈ frames, ∃ e ∈ met, ∃ d, e.declaration = some d ∧ f.IsOf d

/-- What the walk keeps: all frames are those of declarations that were met, and what was met was
read off by the rules of the grammar. -/
structure Walked (g : Grammar) (source : Source) (state : Scope × List Encounter) : Prop where
  around : Traced state.1.frames state.2
  scopes : ∀ e ∈ state.2, Traced e.scope.frames state.2
  declarations : ∀ e ∈ state.2, e.declaration = g.declaration? source e.scope e.place

theorem Traced.subset {frames frames' : List Frame} {met met' : List Encounter}
    (h : Traced frames met) (hframes : frames' ⊆ frames) (hmet : met ⊆ met') :
    Traced frames' met' := by
  intro f hf
  obtain ⟨e, he, d, hd, hof⟩ := h f (hframes hf)
  exact ⟨e, hmet he, d, hd, hof⟩

theorem Scope.leave_subset (s : Scope) (id : Nat) : (s.leave id).frames ⊆ s.frames := by
  unfold leave
  split
  · rename_i f frames hs
    split
    · rw [hs]
      exact List.subset_cons_self f frames
    · exact List.Subset.refl _
  · exact List.Subset.refl _

section Walk

variable {g : Grammar} {source : Source} {root : Node}

/-- One event of the walk keeps what is known of the scopes and of what was met. -/
theorem Walked.step {state : Scope × List Encounter} (h : Walked g source state) (place : Cursor)
    (visit : Visit) : Walked g source (g.step source state place visit).1 := by
  obtain ⟨scope, met⟩ := state
  obtain ⟨haround, hscopes, hdeclarations⟩ := h
  cases visit with
  | leave =>
    exact ⟨haround.subset (scope.leave_subset _) (List.Subset.refl _), hscopes, hdeclarations⟩
  | enter =>
    let e : Encounter := ⟨place, scope, g.declaration? source scope place⟩
    have hmore : met ⊆ e :: met := List.subset_cons_self e met
    have hkept : Traced scope.frames (e :: met) := haround.subset (List.Subset.refl _) hmore
    refine ⟨?_, ?_, ?_⟩
    · intro f hf
      unfold Grammar.step at hf
      dsimp only at hf
      cases hd : g.declaration? source scope place with
      | none =>
        rw [hd] at hf
        exact hkept f hf
      | some d =>
        rw [hd] at hf
        rcases List.mem_cons.mp hf with rfl | hf
        · exact ⟨e, List.mem_cons_self, d, hd, rfl, rfl⟩
        · exact hkept f hf
    · intro e' he'
      rcases List.mem_cons.mp he' with rfl | he'
      · exact hkept
      · exact (hscopes e' he').subset (List.Subset.refl _) hmore
    · intro e' he'
      rcases List.mem_cons.mp he' with rfl | he'
      · rfl
      · exact hdeclarations e' he'

theorem walked_traverse (g : Grammar) (source : Source) (root : Node) :
    Walked g source (root.traverse (g.step source) (Scope.file, [])) := by
  refine Node.traverse_keeps (fun _ place visit h => h.step place visit) ?_ root
  exact ⟨by simp [Traced, Scope.file], by simp, by simp⟩

/-- Every frame around a node of a tree is that of a declaration in the tree. -/
theorem exists_declaration_of_frame {e : Encounter} (he : e ∈ g.encounters source root)
    {f : Frame} (hf : f ∈ e.scope.frames) :
    ∃ e' ∈ g.encounters source root, ∃ d, e'.declaration = some d ∧ f.IsOf d := by
  have hwalked := walked_traverse g source root
  obtain ⟨e', he', hd⟩ := hwalked.scopes e (List.mem_reverse.mp he) f hf
  exact ⟨e', List.mem_reverse.mpr he', hd⟩

theorem encounter_declaration {e : Encounter} (he : e ∈ g.encounters source root) :
    e.declaration = g.declaration? source e.scope e.place :=
  (walked_traverse g source root).declarations e (List.mem_reverse.mp he)

end Walk

/-- The identifiers that a file gives: that of its module and the full names of its symbols. -/
def identifiers (g : Grammar) (source : Source) (file : SourceFile) (root : Node) : List String :=
  file.moduleId :: (g.symbols source file.path root).map fun s => s.fullName file.moduleId

def extensions (g : Grammar) (source : Source) (root : Node) : List Declaration :=
  ((g.encounters source root).filterMap Encounter.declaration).filter fun d => d.declared.scopeOnly

section Sources

variable {g : Grammar} {source : Source} {file : SourceFile} {root : Node}

/-- A declaration with a scope is a symbol of the file or an extension in it. -/
theorem qualify_mem_identifiers {e : Encounter} (he : e ∈ g.encounters source root)
    {d : Declaration} (hd : e.declaration = some d) :
    qualify file.moduleId d.qualifiedName ∈ g.identifiers source file root ∨
      d ∈ g.extensions source root := by
  cases hsymbol : d.declared.scopeOnly with
  | true =>
    refine .inr (List.mem_filter.mpr ⟨List.mem_filterMap.mpr ⟨e, he, hd⟩, hsymbol⟩)
  | false =>
    refine .inl (List.mem_cons_of_mem _ ?_)
    obtain ⟨s, hs, hname⟩ : ∃ s, g.symbolOf source file.path e = some s ∧
        s.qualifiedName = d.qualifiedName := by
      unfold symbolOf
      rw [hd]
      dsimp only
      rw [hsymbol, if_neg Bool.false_ne_true]
      exact ⟨_, rfl, rfl⟩
    refine List.mem_map.mpr ⟨s, List.mem_filterMap.mpr ⟨e, he, hs⟩, ?_⟩
    rw [Symbol.fullName, hname]

/-- The source of a dependency from a scope is that of its innermost declaration, or the module. -/
theorem dependencyFrom_source (file : SourceFile) (scope : Scope) (target : String)
    (kind : DependencyKind) (span : Span) :
    (dependencyFrom file scope.qualified? target kind span).source = file.moduleId ∨
      ∃ f ∈ scope.frames, (dependencyFrom file scope.qualified? target kind span).source =
        qualify file.moduleId f.qualified := by
  obtain ⟨frames⟩ := scope
  cases frames with
  | nil => exact .inl rfl
  | cons f frames => exact .inr ⟨f, List.mem_cons_self, rfl⟩

/-- What a node states starts at the module, at what the node declares, or at a scope around it. -/
theorem source_of_mem_dependenciesOf {e : Encounter} {x : Dependency}
    (hx : x ∈ g.dependenciesOf source file e) :
    x.source = file.moduleId ∨
      (∃ d, e.declaration = some d ∧ x.source = qualify file.moduleId d.qualifiedName) ∨
      ∃ f ∈ e.scope.frames, x.source = qualify file.moduleId f.qualified := by
  unfold dependenciesOf at hx
  dsimp only at hx
  rw [List.mem_append, List.mem_append] at hx
  -- Supertypes start at the declaration itself, fields and calls at the scope around the node.
  rcases hx with (hsuper | hfield) | hcall
  · cases hd : e.declaration with
    | none =>
      rw [hd] at hsuper
      cases hsuper
    | some d =>
      rw [hd] at hsuper
      obtain ⟨⟨target, n⟩, -, rfl⟩ := List.mem_map.mp hsuper
      exact .inr (.inl ⟨d, rfl, rfl⟩)
  · split at hfield
    · obtain ⟨⟨target, n⟩, -, rfl⟩ := List.mem_map.mp hfield
      exact (dependencyFrom_source file e.scope target _ _).imp_right .inr
    · cases hfield
  · obtain ⟨target, -, rfl⟩ := List.mem_map.mp hcall
    exact (dependencyFrom_source file e.scope target _ _).imp_right .inr

theorem distinctFrom_sublist (deps : List Dependency)
    (seen : List (String × String × DependencyKind)) :
    (Dependency.distinctFrom seen deps).Sublist deps := by
  induction deps generalizing seen with
  | nil => exact .slnil
  | cons d rest ih =>
    unfold Dependency.distinctFrom
    split
    · exact (ih seen).cons d
    · exact (ih _).cons_cons d

/-- A dependency starts at the module, at a symbol of its file, or at an extension of a type. -/
theorem source_mem_identifiers {x : Dependency} (hx : x ∈ g.dependencies source file root) :
    x.source ∈ g.identifiers source file root ∨
      ∃ d ∈ g.extensions source root, x.source = qualify file.moduleId d.qualifiedName := by
  have hmodule : file.moduleId ∈ g.identifiers source file root := List.mem_cons_self
  have hnamed : ∀ e ∈ g.encounters source root, ∀ d, e.declaration = some d →
      x.source = qualify file.moduleId d.qualifiedName →
      x.source ∈ g.identifiers source file root ∨
        ∃ d ∈ g.extensions source root, x.source = qualify file.moduleId d.qualifiedName := by
    intro e he d hd hsource
    have hplace : qualify file.moduleId d.qualifiedName ∈ g.identifiers source file root ∨
        d ∈ g.extensions source root := qualify_mem_identifiers he hd
    rcases hplace with hid | hextension
    · exact .inl (hsource ▸ hid)
    · exact .inr ⟨d, hextension, hsource⟩
  rcases List.mem_append.mp ((distinctFrom_sublist _ _).subset hx) with himport | hstated
  · obtain ⟨n, -, hn⟩ := List.mem_flatMap.mp himport
    obtain ⟨target, -, rfl⟩ := List.mem_map.mp hn
    exact .inl hmodule
  · obtain ⟨e, he, hxe⟩ := List.mem_flatMap.mp hstated
    rcases source_of_mem_dependenciesOf hxe with hsource | ⟨d, hd, hsource⟩ | ⟨f, hf, hsource⟩
    · exact .inl (hsource ▸ hmodule)
    · exact hnamed e he d hd hsource
    · obtain ⟨e', he', d, hd, hof⟩ := exists_declaration_of_frame he hf
      exact hnamed e' he' d hd (hof.qualified ▸ hsource)

/-- An extension is what the grammar classifies as a scope only. -/
theorem exists_classified {d : Declaration} (hd : d ∈ g.extensions source root) :
    ∃ e ∈ g.encounters source root, e.declaration = some d ∧
      g.classify source e.scope e.place = some d.declared ∧ d.declared.scopeOnly = true := by
  obtain ⟨hmem, hscope⟩ := List.mem_filter.mp hd
  obtain ⟨e, he, hdeclared⟩ := List.mem_filterMap.mp hmem
  refine ⟨e, he, hdeclared, ?_, hscope⟩
  have hclassified := encounter_declaration he
  rw [hdeclared] at hclassified
  obtain ⟨declared, hclassify, rfl⟩ := Option.map_eq_some_iff.mp hclassified.symm
  exact hclassify

end Sources

/-- The dependencies of a file start at its module, at its symbols, or at extensions of types. All
of them start at the module or at a symbol exactly if this is so of every extension that a
dependency starts at, thus if the extended type is a symbol of the file under the same name. In the
grammars of the registry only the implementations of Rust and the extensions of Swift are
extensions, so that of all other languages nothing else is left to be asked. -/
theorem sources_lie_in_file_iff (g : Grammar) (source : Source) (file : SourceFile)
    (root : Node) :
    (∀ x ∈ g.dependencies source file root, x.source ∈ g.identifiers source file root ∨
      ∃ d ∈ g.extensions source root, x.source = qualify file.moduleId d.qualifiedName) ∧
    ((∀ x ∈ g.dependencies source file root, x.source ∈ g.identifiers source file root) ↔
      ∀ d ∈ g.extensions source root,
        (∃ x ∈ g.dependencies source file root,
          x.source = qualify file.moduleId d.qualifiedName) →
        qualify file.moduleId d.qualifiedName ∈ g.identifiers source file root) ∧
    (g ∈ Registry.grammars → ∀ d ∈ g.extensions source root,
      ∃ e ∈ g.encounters source root, e.declaration = some d ∧
        ExtendsType g.language e.place.node) ∧
    (g ∈ Registry.grammars → g.language ≠ .rust → g.language ≠ .swift →
      ∀ x ∈ g.dependencies source file root, x.source ∈ g.identifiers source file root) := by
  have hextends : g ∈ Registry.grammars → ∀ d ∈ g.extensions source root,
      ∃ e ∈ g.encounters source root, e.declaration = some d ∧
        ExtendsType g.language e.place.node := by
    intro hg d hd
    obtain ⟨e, he, hdeclared, hclassify, hscope⟩ := exists_classified hd
    exact ⟨e, he, hdeclared, Registry.extends_of_scopeOnly hg hclassify hscope⟩
  refine ⟨fun x hx => source_mem_identifiers hx, ?_, hextends, ?_⟩
  · constructor
    · rintro h d - ⟨x, hx, hsource⟩
      exact hsource ▸ h x hx
    · intro h x hx
      rcases source_mem_identifiers hx with hid | ⟨d, hd, hsource⟩
      · exact hid
      · rw [hsource]
        exact h d hd ⟨x, hx, hsource⟩
  · intro hg hrust hswift x hx
    rcases source_mem_identifiers hx with hid | ⟨d, hd, -⟩
    · exact hid
    · obtain ⟨e, -, -, ⟨hlanguage, -⟩ | ⟨hlanguage, -⟩⟩ := hextends hg d hd
      · exact absurd hlanguage hrust
      · exact absurd hlanguage hswift

theorem encounters_eq_tour (g : Grammar) (source : Source) (root : Node) :
    g.encounters source root = (root.tour (g.step source) (Scope.file, []) []).2.reverse := by
  rw [encounters, root.traverse_eq_tour]

def foreignImpl : SourceFile × Source × Node :=
  let node (id : Nat) (kind field : String) (start stop : Nat) (children : List Node) : Node :=
    .mk ⟨id, kind, field, true, start, stop⟩ children
  (.ofPath ⟨"src/x.rs"⟩ .rust 16, .plain "impl B for A \x7b\x7d\n".toUTF8,
    node 0 "source_file" "" 0 16
      [node 1 "impl_item" "" 0 15
        [node 2 "type_identifier" "trait" 5 6 [], node 3 "type_identifier" "type" 11 12 [],
          node 4 "declaration_list" "body" 13 15 []]])

/-- The implementation of a trait for a type of another file starts a dependency at a name that the
file does not give. -/
theorem sources_outside_file : ¬ ∀ g ∈ Registry.grammars, ∀ (source : Source) (file : SourceFile)
    (root : Node), ∀ x ∈ g.dependencies source file root,
      x.source ∈ g.identifiers source file root := by
  intro h
  have hall := h Rust.rules (List.mem_cons_of_mem _ List.mem_cons_self) foreignImpl.2.1
    foreignImpl.1 foreignImpl.2.2
  unfold dependencies identifiers symbols at hall
  rw [encounters_eq_tour] at hall
  exact absurd hall (by decide +kernel)

end CodeAtlas.Grammar
