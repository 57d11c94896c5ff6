import CodeAtlas.Proofs.Grammar.Extensions
import CodeAtlas.Proofs.Grammar.Introductions
import CodeAtlas.Proofs.Grammar.Nesting
import CodeAtlas.Proofs.Pieces
import Mathlib.Data.List.Forall2
/-!
The variables of a statement that may declare several. One symbol is read off such a statement, and
it is that of its first declarator. So the variables of a statement have symbols exactly if it
declares only one, its first declarator is that of the variable, and the rules read its name
(`declared_variables_iff`).
-/
namespace CodeAtlas.Grammar

open Syntax

section Statements

/-- What a declarator comes to: the name that the rules read, or names that they do not read. -/
inductive Entry
  | read (name : Node)
  | unread (names : List Node)

def Entry.names : Entry → List Node
  | .read x => [x]
  | .unread names => names

def variableKinds : Language → List String
  | .java => ["field_declaration", "constant_declaration"]
  | .c | .cpp => ["declaration", "field_declaration"]
  | .go => ["const_spec", "var_spec"]
  | _ => []

def declaratorRole : Language → String
  | .go => "name"
  | _ => "declarator"

/-- The variables that a declarator introduces; a function is none. What is written behind a
declarator has its role and introduces nothing. -/
inductive CFamily.Writes : Node → Entry → Prop
  | read {n x : Node} {form : Form} (h : Introduces n [x] form .value) : Writes n (.read x)
  | unread {n : Node} {names : List Node} {form : Form} {found : Found}
      (h : Introduces n names form found) (hform : form ≠ .function) (hfound : found ≠ .value) :
      Writes n (.unread names)
  | function {n : Node} {names : List Node} {found : Found}
      (h : Introduces n names .function found) : Writes n (.unread [])
  | suffix {n : Node} (hkind : n.kind ∈ ["gnu_asm_expression", "attribute_specifier"])
      (hnone : n.child? "declarator" = none) : Writes n (.unread [])

def Declarator (language : Language) (d : Node) (e : Entry) : Prop :=
  match language with
  | .java => ∃ x, d.child? "name" = some x ∧ e = .read x
  | .c | .cpp => CFamily.Writes d e
  | .go => e = if d.named then .read d else .unread []
  | _ => False

/-- A statement with its declarators. -/
structure DeclaresVariables (language : Language) (n : Node) (entries : List Entry) : Prop where
  kind : n.kind ∈ variableKinds language
  declarators : List.Forall₂ (Declarator language) (n.childrenIn (declaratorRole language)) entries
  first : ∀ d ∈ n.child? (declaratorRole language), d.named = true

/-- Whether a statement declares variables of the file: fields do in a type, others at the top. -/
def variableScope (language : Language) (scope : Scope) (n : Node) : Bool :=
  match language with
  | .java => scope.inType
  | .go => scope.atModuleLevel
  | .c => if n.kind == "field_declaration" then scope.inType else scope.atModuleLevel
  | .cpp =>
    if n.kind == "field_declaration" then scope.inType else scope.inType || scope.atModuleLevel
  | _ => false

/-- Whether a node belongs to a statement and to no other one inside it. -/
def Encounter.isOf (language : Language) (statement : Node) (e : Encounter) : Bool :=
  (statement.subtree.map Node.id).contains e.place.node.id &&
    (e.place.node.id == statement.id || !(variableKinds language).contains e.place.node.kind)

def variablesOf (g : Grammar) (source : Source) (path : Path) (root statement : Node) :
    List Symbol :=
  (((g.encounters source root).filter (Encounter.isOf g.language statement)).filterMap
    (g.symbolOf source path)).filter fun s => s.kind == .variable

end Statements

section Classified

variable {source : Source} {scope : Scope} {place : Cursor} {entries : List Entry}

def variableName? (o : Option Declared) : Option String :=
  (o.filter fun d => d.kind == .variable).map Declared.name

def readName? : List Entry → Option Node
  | .read x :: _ => some x
  | _ => none

theorem variableName?_plain (name : Option String) :
    variableName? (name.map (Declared.plain · .variable)) = name := by
  cases name <;> rfl

theorem variableName?_ite {c : Bool} {o : Option Declared} :
    variableName? (if c then o else none) = if c then variableName? o else none := by
  cases c <;> rfl

/-- The first node in the role of a declarator is the first declarator. -/
theorem DeclaresVariables.cases {language : Language} {n : Node}
    (h : DeclaresVariables language n entries) :
    (n.child? (declaratorRole language) = none ∧ entries = []) ∨
      ∃ d e rest, n.child? (declaratorRole language) = some d ∧ d.named = true ∧
        entries = e :: rest ∧ Declarator language d e := by
  have hhead : (n.childrenIn (declaratorRole language)).head? =
      n.child? (declaratorRole language) := List.head?_filter
  have hwrites := h.declarators
  cases hchildren : n.childrenIn (declaratorRole language) with
  | nil =>
    rw [hchildren] at hhead hwrites
    exact .inl ⟨hhead.symm, List.forall₂_nil_left_iff.mp hwrites⟩
  | cons d ds =>
    rw [hchildren] at hhead hwrites
    obtain ⟨e, rest, he, -, rfl⟩ := List.forall₂_cons_left_iff.mp hwrites
    exact .inr ⟨d, e, rest, hhead.symm, h.first d hhead.symm, rfl, he⟩

/-- Of a Java declaration the first name is read. -/
theorem Java.variableName?_classify (h : DeclaresVariables .java place.node entries) :
    variableName? (Java.classify source scope place) =
      if variableScope .java scope place.node then (readName? entries).map source.text
      else none := by
  have hclassify : Java.classify source scope place = if scope.inType then
      ((place.node.child? "declarator").bind fun d => source.textIn? d "name").map
        (Declared.plain · .variable) else none := by
    unfold Java.classify
    dsimp only
    rcases List.mem_cons.mp h.kind with hkind | hkind
    · simp only [hkind]
    · simp only [List.mem_singleton.mp hkind]
  rw [hclassify, variableName?_ite, variableName?_plain]
  congr 1
  rcases h.cases with ⟨hnone, rfl⟩ | ⟨d, e, rest, hd, -, rfl, x, hx, rfl⟩
  · change place.node.child? "declarator" = none at hnone
    rw [hnone]
    rfl
  · change place.node.child? "declarator" = some d at hd
    rw [hd, Option.bind_some, Source.textIn?, hx]
    rfl

/-- Of a Go declaration the first name is read, outside of functions only. -/
theorem Go.variableName?_classify (h : DeclaresVariables .go place.node entries) :
    variableName? (Go.classify source scope place) =
      if variableScope .go scope place.node then (readName? entries).map source.text
      else none := by
  have hclassify : Go.classify source scope place = if scope.atModuleLevel then
      (source.textIn? place.node "name").map (Declared.plain · .variable) else none := by
    unfold Go.classify
    dsimp only
    rcases List.mem_cons.mp h.kind with hkind | hkind
    · simp only [hkind]
    · simp only [List.mem_singleton.mp hkind]
  rw [hclassify, variableName?_ite, variableName?_plain, Source.textIn?]
  congr 1
  rcases h.cases with ⟨hnone, rfl⟩ | ⟨d, e, rest, hd, hnamed, rfl, he⟩
  · change place.node.child? "name" = none at hnone
    rw [hnone]
    rfl
  · change place.node.child? "name" = some d at hd
    change e = if d.named then .read d else .unread [] at he
    rw [he, hnamed, if_pos rfl, hd]
    rfl

/-- The variable that is read off a declarator. -/
theorem CFamily.variableName?_declaration? {d : Node} {e : Entry}
    (hd : place.node.child? "declarator" = some d) (h : CFamily.Writes d e) :
    variableName? ((CFamily.declaration? source place.node).map Prod.fst) =
      (readName? [e]).map source.text := by
  have hnothing (hnone : CFamily.declaratorName? source d = none) :
      variableName? ((CFamily.declaration? source place.node).map Prod.fst) = none := by
    rw [CFamily.declaration?, hd, Option.bind_some, hnone]
    rfl
  have hunread {names : List Node} {form : CFamily.Form} {found : CFamily.Found}
      (h : CFamily.Introduces d names form found) (hfound : found ≠ .value) :
      variableName? ((CFamily.declaration? source place.node).map Prod.fst) = none := by
    have hholds : found.Holds source d names := h.holds
    cases found with
    | value => exact absurd rfl hfound
    | nothing => exact hnothing hholds
    | function =>
      have hfunction : CFamily.declaresFunction d = true := hholds
      rw [CFamily.declaration?, hd, Option.bind_some, hfunction, Option.map_map]
      cases CFamily.declaratorName? source d <;> rfl
  cases h with
  | @read x _ h =>
    obtain ⟨hvariable, y, owner, hnames, hy⟩ : CFamily.Found.value.Holds source d [x] := h.holds
    obtain rfl := List.singleton_inj.mp hnames
    rw [CFamily.declaration?, hd, Option.bind_some, hy, hvariable]
    rfl
  | unread h _ hfound => exact hunread h hfound
  | function h => exact hunread h (h.not_value rfl)
  | suffix hkind hnone =>
    have hread : ∀ kind ∈ ["gnu_asm_expression", "attribute_specifier"],
        kind ∉ CFamily.readKinds := by decide
    apply hnothing
    rw [CFamily.declaratorName?_of_other (hread _ hkind), hnone, Option.bind_none]

/-- Of the declarators of a C declaration the first is read. -/
theorem CFamily.variableName?_first {language : Language}
    (h : DeclaresVariables language place.node entries)
    (hrole : declaratorRole language = "declarator")
    (hwrites : ∀ d e, Declarator language d e → CFamily.Writes d e) :
    variableName? ((CFamily.declaration? source place.node).map Prod.fst) =
      (readName? entries).map source.text := by
  rcases h.cases with ⟨hnone, rfl⟩ | ⟨d, e, rest, hd, -, rfl, he⟩
  · rw [hrole] at hnone
    rw [CFamily.declaration?, hnone]
    rfl
  · rw [hrole] at hd
    rw [CFamily.variableName?_declaration? hd (hwrites d e he)]
    cases e <;> rfl

/-- An owner that is written in a declaration leaves its name and its kind. -/
theorem variableName?_ownedBy (o : Option (Declared × Option String)) :
    variableName? (o.map fun (d, owner) => d.ownedBy owner) = variableName? (o.map Prod.fst) := by
  cases o with
  | none => rfl
  | some written =>
    obtain ⟨d, owner⟩ := written
    have hkind : (d.ownedBy owner).kind = d.kind := rfl
    unfold variableName?
    rw [Option.map_some, Option.map_some, Option.filter_some, Option.filter_some, hkind]
    cases d.kind == .variable <;> rfl

/-- Of a C declaration the first name is read, where its scope allows it. -/
theorem CFamily.variableName?_classify (h : DeclaresVariables .c place.node entries) :
    variableName? (CFamily.classify source scope place) =
      if variableScope .c scope place.node then (readName? entries).map source.text
      else none := by
  have hfirst : variableName? ((CFamily.declaration? source place.node).map Prod.fst) = _ :=
    CFamily.variableName?_first h rfl fun _ _ h => h
  rcases List.mem_cons.mp h.kind with hkind | hkind
  · have hscope : variableScope .c scope place.node = scope.atModuleLevel := by
      rw [variableScope, hkind]
      rfl
    rw [hscope, ← hfirst, ← variableName?_ownedBy, ← variableName?_ite]
    unfold CFamily.classify
    simp only [hkind]
  · have hkind := List.mem_singleton.mp hkind
    have hscope : variableScope .c scope place.node = scope.inType := by
      rw [variableScope, hkind]
      rfl
    rw [hscope, ← hfirst, ← variableName?_ite]
    unfold CFamily.classify
    simp only [hkind]

/-- Of a C++ declaration the first name is read, where its scope allows it. -/
theorem Cpp.variableName?_classify (h : DeclaresVariables .cpp place.node entries) :
    variableName? (Cpp.classify source scope place) =
      if variableScope .cpp scope place.node then (readName? entries).map source.text
      else none := by
  have hfirst : variableName? ((CFamily.declaration? source place.node).map Prod.fst) = _ :=
    CFamily.variableName?_first h rfl fun _ _ h => h
  rcases List.mem_cons.mp h.kind with hkind | hkind
  · have hscope : variableScope .cpp scope place.node = (scope.inType || scope.atModuleLevel) := by
      rw [variableScope, hkind]
      rfl
    have hclassify : Cpp.classify source scope place =
        if scope.inType then (CFamily.declaration? source place.node).map Prod.fst
        else if scope.atModuleLevel then
          (CFamily.declaration? source place.node).map fun (d, owner) => d.ownedBy owner
        else none := by
      unfold Cpp.classify CFamily.classify
      simp only [hkind]
    rw [hclassify, hscope]
    cases scope.inType with
    | true => rw [if_pos rfl, hfirst]; rfl
    | false =>
      rw [if_neg Bool.false_ne_true, variableName?_ite, variableName?_ownedBy, hfirst,
        Bool.false_or]
  · have hkind := List.mem_singleton.mp hkind
    have hscope : variableScope .cpp scope place.node = scope.inType := by
      rw [variableScope, hkind]
      rfl
    rw [hscope, ← hfirst, ← variableName?_ite]
    unfold Cpp.classify CFamily.classify
    simp only [hkind]
    rfl

end Classified

section OnlyStatements

variable {source : Source} {scope : Scope} {place : Cursor} {d : Declared}

def NoVariable (o : Option Declared) : Prop :=
  ∀ d, o = some d → d.kind ≠ .variable

theorem NoVariable.none : NoVariable none :=
  fun _ hd => nomatch hd

theorem NoVariable.map {α : Type} {o : Option α} {f : α → Declared}
    (h : ∀ a, (f a).kind ≠ .variable) : NoVariable (o.map f) := by
  intro d hd
  obtain ⟨a, -, rfl⟩ := Option.map_eq_some_iff.mp hd
  exact h a

theorem NoVariable.some {d : Declared} (h : d.kind ≠ .variable) : NoVariable (some d) := by
  rintro _ ⟨⟩
  exact h

theorem Java.noVariable_classify (hkind : place.node.kind ∉ variableKinds .java) :
    NoVariable (Java.classify source scope place) := by
  unfold Java.classify
  dsimp only
  split <;> first
    | exact .none
    | exact .map fun _ => SymbolKind.noConfusion
    | (rename_i heq; exact absurd (heq ▸ by decide) hkind)

theorem Go.noVariable_classify (hkind : place.node.kind ∉ variableKinds .go) :
    NoVariable (Go.classify source scope place) := by
  have htype : NoVariable (Go.classifyType source place.node) := by
    unfold Go.classifyType
    split
    · split <;> exact .some SymbolKind.noConfusion
    · exact .none
  unfold Go.classify
  dsimp only
  split <;> first
    | exact .none
    | exact .map fun _ => SymbolKind.noConfusion
    | exact htype
    | (rename_i heq; exact absurd (heq ▸ by decide) hkind)

theorem CFamily.noVariable_classify (hkind : place.node.kind ∉ variableKinds .c) :
    NoVariable (CFamily.classify source scope place) := by
  unfold CFamily.classify
  dsimp only
  split <;> first
    | exact .none
    | exact .map fun _ => SymbolKind.noConfusion
    | (rename_i heq; exact absurd (heq ▸ by decide) hkind)
    | skip
  all_goals
    split
    · apply NoVariable.some
      change (if place.node.kind == "enum_specifier" then _ else _) ≠ SymbolKind.variable
      split <;> exact SymbolKind.noConfusion
    · exact .none

theorem Cpp.noVariable_classify (hkind : place.node.kind ∉ variableKinds .cpp) :
    NoVariable (Cpp.classify source scope place) := by
  unfold Cpp.classify
  dsimp only
  split <;> first
    | exact .map fun _ => SymbolKind.noConfusion
    | exact CFamily.noVariable_classify hkind
    | (rename_i heq; exact absurd (heq ▸ by decide) hkind)
    | skip
  all_goals
    split
    · exact .some SymbolKind.noConfusion
    · exact .none

end OnlyStatements

section Symbols

variable {g : Grammar} {source : Source} {path : Path} {root : Node} {place : Cursor}

def declaratorGrammars : List Grammar :=
  [Java.rules, CFamily.rules, Cpp.rules, Go.rules]

theorem noVariable_classify (hg : g ∈ declaratorGrammars) {scope : Scope}
    (hkind : place.node.kind ∉ variableKinds g.language) :
    NoVariable (g.classify source scope place) := by
  simp only [declaratorGrammars, List.mem_cons, List.not_mem_nil, or_false] at hg
  rcases hg with rfl | rfl | rfl | rfl
  · exact Java.noVariable_classify hkind
  · exact CFamily.noVariable_classify hkind
  · exact Cpp.noVariable_classify hkind
  · exact Go.noVariable_classify hkind

/-- What a statement declares is the variable that is read off its first declarator. -/
theorem variableName?_classify (hg : g ∈ declaratorGrammars) {scope : Scope}
    {entries : List Entry} (h : DeclaresVariables g.language place.node entries) :
    variableName? (g.classify source scope place) =
      if variableScope g.language scope place.node then (readName? entries).map source.text
      else none := by
  simp only [declaratorGrammars, List.mem_cons, List.not_mem_nil, or_false] at hg
  rcases hg with rfl | rfl | rfl | rfl
  · exact Java.variableName?_classify h
  · exact CFamily.variableName?_classify h
  · exact Cpp.variableName?_classify h
  · exact Go.variableName?_classify h

theorem scopeOnly_eq_false (hg : g ∈ declaratorGrammars) {scope : Scope} {d : Declared}
    (h : g.classify source scope place = some d) : d.scopeOnly = false := by
  simp only [declaratorGrammars, List.mem_cons, List.not_mem_nil, or_false] at hg
  rcases hg with rfl | rfl | rfl | rfl
  · exact Java.onlySymbol_classify source scope place d h
  · exact CFamily.onlySymbol_classify source scope place d h
  · exact Cpp.onlySymbol_classify source scope place d h
  · exact Go.onlySymbol_classify source scope place d h

def variableAt? (g : Grammar) (source : Source) (path : Path) (place : Cursor) : Option Symbol :=
  (g.symbolOf source path (g.encounterAt source place)).filter fun s => s.kind == .variable

/-- The name of the variable at a place is that of its classification. -/
theorem map_name_variableAt? (hg : g ∈ declaratorGrammars) :
    (g.variableAt? source path place).map Symbol.name =
      variableName? (g.classify source (g.scopeAround source place.trail) place) := by
  unfold variableAt? symbolOf
  rw [declaration_encounterAt]
  cases hclassify : g.classify source (g.scopeAround source place.trail) place with
  | none => rfl
  | some d =>
    have hsymbol : d.scopeOnly = false := scopeOnly_eq_false hg hclassify
    rw [Option.map_some]
    dsimp only [Scope.declare]
    rw [hsymbol, if_neg Bool.false_ne_true, variableName?, Option.filter_some, Option.filter_some]
    cases d.kind == .variable <;> rfl

/-- What is no statement for variables declares none. -/
theorem variableAt?_eq_none (hg : g ∈ declaratorGrammars)
    (hkind : place.node.kind ∉ variableKinds g.language) :
    g.variableAt? source path place = none := by
  have hnone :
      variableName? (g.classify source (g.scopeAround source place.trail) place) = none := by
    cases hclassify : g.classify source (g.scopeAround source place.trail) place with
    | none => rfl
    | some d =>
      have hd : d.kind ≠ .variable := noVariable_classify hg hkind d hclassify
      rw [variableName?, Option.filter_some, if_neg (by simpa using hd)]
      rfl
  have hname : (g.variableAt? source path place).map Symbol.name = _ := map_name_variableAt? hg
  rwa [hnone, Option.map_eq_none_iff] at hname

/-- The variables of a statement are those that are met at the statement itself. -/
theorem variablesOf_eq (hg : g ∈ declaratorGrammars)
    (hdistinct : (root.subtree.map Node.id).Nodup) (hplace : place ∈ root.places) :
    g.variablesOf source path root place.node = (g.variableAt? source path place).toList := by
  have hids : (root.places.map fun p => p.node.id).Nodup := by
    rw [← Node.map_node_places, List.map_map] at hdistinct
    exact hdistinct
  let kept (p : Cursor) : Option Symbol :=
    if (g.encounterAt source p).isOf g.language place.node then g.variableAt? source path p
    else none
  have hvariables : g.variablesOf source path root place.node = root.places.filterMap kept := by
    rw [variablesOf, encounters_eq hdistinct, List.filterMap_filter, List.filter_filterMap,
      List.filterMap_map]
    apply List.filterMap_congr
    intro p _
    change ((if _ then _ else none : Option Symbol).filter _) = if _ then _ else none
    split
    · rfl
    · rfl
  have hself : kept place = g.variableAt? source path place := by
    have hmem : place.node.id ∈ place.node.subtree.map Node.id := by
      obtain ⟨⟨label, children⟩, trail⟩ := place
      exact List.mem_cons_self
    have hof : (g.encounterAt source place).isOf g.language place.node = true := by
      simp [Encounter.isOf, encounterAt, hmem]
    exact if_pos hof
  rw [hvariables, ← hself]
  refine Pieces.filterMap_eq_toList hplace (List.Nodup.of_map _ hids) fun p hp hne => ?_
  have hid : p.node.id ≠ place.node.id := fun heq =>
    hne (List.inj_on_of_nodup_map hids hp hplace heq)
  by_cases hof : (g.encounterAt source p).isOf g.language place.node = true
  · have hkind : p.node.kind ∉ variableKinds g.language := by
      simp only [Encounter.isOf, encounterAt, Bool.and_eq_true, Bool.or_eq_true, beq_iff_eq,
        Bool.not_eq_true', List.contains_eq_mem, decide_eq_false_iff_not] at hof
      exact hof.2.resolve_left hid
    exact (if_pos hof).trans (variableAt?_eq_none hg hkind)
  · exact if_neg hof

/-- The variables of a statement all have symbols of their own exactly if the statement stands where
variables of the file are declared, it declares one, and this is the one that is read off its first
declarator. -/
theorem declared_variables_iff (hg : g ∈ declaratorGrammars)
    (hdistinct : (root.subtree.map Node.id).Nodup) (hplace : place ∈ root.places)
    {entries : List Entry} (h : DeclaresVariables g.language place.node entries)
    (hnames : entries.flatMap Entry.names ≠ []) :
    (g.variablesOf source path root place.node).map Symbol.name =
        (entries.flatMap Entry.names).map source.text ↔
      variableScope g.language (g.scopeAround source place.trail) place.node = true ∧
        ∃ x rest, entries = .read x :: rest ∧ ∀ e ∈ rest, e.names = [] := by
  have hvariables : (g.variablesOf source path root place.node).map Symbol.name =
      (if variableScope g.language (g.scopeAround source place.trail) place.node then
        (readName? entries).map source.text else none).toList := by
    have hname : (g.variableAt? source path place).map Symbol.name = _ := map_name_variableAt? hg
    rw [variablesOf_eq hg hdistinct hplace, ← variableName?_classify hg h, ← hname]
    cases g.variableAt? source path place <;> rfl
  rw [hvariables]
  constructor
  · intro heq
    have hne : (entries.flatMap Entry.names).map source.text ≠ [] := by
      simpa using hnames
    by_cases hscope : variableScope g.language (g.scopeAround source place.trail) place.node = true
    · rw [if_pos hscope] at heq
      refine ⟨hscope, ?_⟩
      match entries with
      | .read x :: rest =>
        refine ⟨x, rest, rfl, fun e he => ?_⟩
        have hall : [source.text x] =
            [source.text x] ++ (rest.flatMap Entry.names).map source.text :=
          heq.trans (by rw [List.flatMap_cons, List.map_append]; rfl)
        have hrest := List.map_eq_nil_iff.mp (List.self_eq_append_right.mp hall)
        exact List.flatMap_eq_nil_iff.mp hrest e he
      | .unread names :: rest => exact absurd heq.symm hne
      | [] => exact absurd rfl hnames
    · rw [if_neg hscope] at heq
      exact absurd heq.symm hne
  · rintro ⟨hscope, x, rest, rfl, hrest⟩
    rw [if_pos hscope, List.flatMap_cons, List.flatMap_eq_nil_iff.mpr hrest]
    rfl

end Symbols

/-- The file `int *a, f(int);`. -/
def pointerAndFunction : Source × Node :=
  let node (id : Nat) (kind field : String) (start stop : Nat) (children : List Node) : Node :=
    .mk ⟨id, kind, field, true, start, stop⟩ children
  (.plain "int *a, f(int);\n".toUTF8,
    node 0 "translation_unit" "" 0 16
      [node 1 "declaration" "" 0 15
        [node 2 "primitive_type" "type" 0 3 [],
          node 3 "pointer_declarator" "declarator" 4 6 [node 4 "identifier" "declarator" 5 6 []],
          node 5 "function_declarator" "declarator" 8 14
            [node 6 "identifier" "declarator" 8 9 [],
              node 7 "parameter_list" "parameters" 9 14 []]]])

theorem declared_variables_iff_pointer : ∃ place ∈ pointerAndFunction.2.places, ∃ entries,
    DeclaresVariables .c place.node entries ∧ entries.flatMap Entry.names ≠ [] ∧
      (CFamily.rules.variablesOf pointerAndFunction.1 ⟨"a.c"⟩ pointerAndFunction.2
        place.node).map Symbol.name =
          (entries.flatMap Entry.names).map pointerAndFunction.1.text := by
  let place : Cursor := pointerAndFunction.2.places.get ⟨1, by decide⟩
  have hplace : place ∈ pointerAndFunction.2.places := List.get_mem ..
  obtain ⟨entries, hdeclares, x, rest, hentries, hrest⟩ :
      ∃ entries, DeclaresVariables .c place.node entries ∧
        ∃ x rest, entries = .read x :: rest ∧ ∀ e ∈ rest, e.names = [] := by
    refine ⟨_, ⟨by decide, .cons (.read (.object (by decide) rfl (.name (by decide) rfl)))
      (.cons (.function (.function rfl rfl (.name (by decide) rfl))) .nil), ?_⟩, _, _, rfl, ?_⟩
    · rintro d ⟨⟩
      rfl
    · intro e he
      obtain rfl := List.mem_singleton.mp he
      rfl
  have hnames : entries.flatMap Entry.names ≠ [] := by
    rw [hentries]
    exact List.cons_ne_nil _ _
  refine ⟨place, hplace, entries, hdeclares, hnames, ?_⟩
  have hg : CFamily.rules ∈ declaratorGrammars := by simp [declaratorGrammars]
  exact (declared_variables_iff hg (by decide) hplace hdeclares hnames).mpr
    ⟨rfl, x, rest, hentries, hrest⟩

/-- The file `int a, b;`. -/
def twoVariables : Source × Node :=
  let node (id : Nat) (kind field : String) (start stop : Nat) (children : List Node) : Node :=
    .mk ⟨id, kind, field, true, start, stop⟩ children
  (.plain "int a, b;\n".toUTF8,
    node 0 "translation_unit" "" 0 10
      [node 1 "declaration" "" 0 9
        [node 2 "primitive_type" "type" 0 3 [], node 3 "identifier" "declarator" 4 5 [],
          node 4 "identifier" "declarator" 7 8 []]])

/-- The second variable of a statement has no symbol. -/
theorem second_variable_lost : ¬ ∀ g ∈ declaratorGrammars, ∀ (source : Source) (path : Path)
    (root : Node) (place : Cursor) (entries : List Entry),
    (root.subtree.map Node.id).Nodup → place ∈ root.places →
      DeclaresVariables g.language place.node entries →
      variableScope g.language (g.scopeAround source place.trail) place.node = true →
      (g.variablesOf source path root place.node).map Symbol.name =
        (entries.flatMap Entry.names).map source.text := by
  intro h
  let place : Cursor := twoVariables.2.places.get ⟨1, by decide⟩
  have hplace : place ∈ twoVariables.2.places := List.get_mem ..
  have hdistinct : (twoVariables.2.subtree.map Node.id).Nodup := by decide
  have hg : CFamily.rules ∈ declaratorGrammars := by simp [declaratorGrammars]
  obtain ⟨entries, hdeclares, hlength⟩ : ∃ entries, DeclaresVariables .c place.node entries ∧
      (entries.flatMap Entry.names).length = 2 := by
    refine ⟨_, ⟨by decide, .cons (.read (.name (by decide) rfl))
      (.cons (.read (.name (by decide) rfl)) .nil), ?_⟩, rfl⟩
    rintro d ⟨⟩
    rfl
  have heq := h _ hg twoVariables.1 ⟨"a.c"⟩ _ place entries hdistinct hplace hdeclares rfl
  have hone : (CFamily.rules.variablesOf twoVariables.1 ⟨"a.c"⟩ twoVariables.2
      place.node).length ≤ 1 := by
    rw [variablesOf_eq hg hdistinct hplace]
    cases CFamily.rules.variableAt? twoVariables.1 ⟨"a.c"⟩ place with
    | none => exact Nat.zero_le 1
    | some s => exact Nat.le_refl 1
  have hcount := congrArg List.length heq
  rw [List.length_map, List.length_map, hlength] at hcount
  omega

end CodeAtlas.Grammar
