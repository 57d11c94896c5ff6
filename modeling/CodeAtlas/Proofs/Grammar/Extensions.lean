import CodeAtlas.Registry
/-!
Extensions of types. Of all declarations only the implementations of Rust and the extensions of
Swift open a scope without being a symbol; they name a type that may be declared elsewhere
(`extends_of_scopeOnly`).
-/
namespace CodeAtlas.Grammar

open Syntax

def OnlySymbol (o : Option Declared) : Prop :=
  ∀ d, o = some d → d.scopeOnly = false

namespace OnlySymbol

theorem none : OnlySymbol none := by
  intro d hd
  cases hd

theorem some {d : Declared} (h : d.scopeOnly = false) : OnlySymbol (some d) := by
  rintro _ ⟨⟩
  exact h

theorem map {α : Type} {o : Option α} {f : α → Declared} (h : ∀ a, (f a).scopeOnly = false) :
    OnlySymbol (o.map f) := by
  intro d hd
  obtain ⟨a, -, rfl⟩ := Option.map_eq_some_iff.mp hd
  exact h a

theorem bind {α : Type} {o : Option α} {f : α → Option Declared} (h : ∀ a, OnlySymbol (f a)) :
    OnlySymbol (o.bind f) := by
  intro d hd
  obtain ⟨a, -, ha⟩ := Option.bind_eq_some_iff.mp hd
  exact h a d ha

theorem ite {c : Prop} [Decidable c] {o o' : Option Declared} (h : OnlySymbol o)
    (h' : OnlySymbol o') : OnlySymbol (if c then o else o') := by
  split
  · exact h
  · exact h'

end OnlySymbol

variable (source : Source) (scope : Scope) (place : Cursor)

theorem Python.onlySymbol_classify : OnlySymbol (Python.classify source scope place) := by
  unfold Python.classify
  dsimp only
  split
  · exact .map fun _ => rfl
  · exact .map fun _ => rfl
  · refine .ite .none ?_
    split
    · exact .ite (.some rfl) .none
    · exact .none
  · exact .none

theorem Script.onlySymbol_classifyVariable (node : Node) :
    OnlySymbol (Script.classifyVariable source scope node) := by
  unfold Script.classifyVariable
  split
  · exact .none
  · refine .ite .none ?_
    split
    · exact .some rfl
    · exact .ite (.some rfl) .none

theorem Script.onlySymbol_classify : OnlySymbol (Script.classify source scope place) := by
  unfold Script.classify
  dsimp only
  split <;> first
    | exact .none
    | exact .map fun _ => rfl
    | exact Script.onlySymbol_classifyVariable source scope place.node

theorem Script.onlySymbol_classifyTyped :
    OnlySymbol (Script.classifyTyped source scope place) := by
  unfold Script.classifyTyped
  dsimp only
  split
  · exact .map fun _ => rfl
  · exact Script.onlySymbol_classify source scope place

theorem Go.onlySymbol_classify : OnlySymbol (Go.classify source scope place) := by
  have htype : ∀ node, OnlySymbol (Go.classifyType source node) := by
    intro node
    unfold Go.classifyType
    split
    · split <;> exact .some rfl
    · exact .none
  unfold Go.classify
  dsimp only
  split
  · exact .map fun _ => rfl
  · exact .map fun _ => rfl
  · exact htype place.node
  · exact .map fun _ => rfl
  · exact .ite (.map fun _ => rfl) .none
  · exact .ite (.map fun _ => rfl) .none
  · exact .none

theorem Java.onlySymbol_classify : OnlySymbol (Java.classify source scope place) := by
  unfold Java.classify
  dsimp only
  split <;> first
    | exact .none
    | exact .map fun _ => rfl
    | exact .ite (.map fun _ => rfl) .none

theorem CFamily.onlySymbol_fst_declaration? (node : Node) :
    OnlySymbol ((CFamily.declaration? source node).map Prod.fst) := by
  unfold CFamily.declaration?
  rw [Option.map_bind]
  exact .bind fun _ => by
    rw [Function.comp_apply, Option.map_map]
    exact .map fun _ => rfl

theorem CFamily.onlySymbol_classify : OnlySymbol (CFamily.classify source scope place) := by
  unfold CFamily.classify
  dsimp only
  split
  · exact .map fun _ => rfl
  · split
    · exact .some rfl
    · exact .none
  · split
    · exact .some rfl
    · exact .none
  · split
    · exact .some rfl
    · exact .none
  · exact .map fun _ => rfl
  · refine .ite ?_ .none
    intro d hd
    obtain ⟨⟨declared, owner⟩, hdeclared, rfl⟩ := Option.map_eq_some_iff.mp hd
    have hfst := CFamily.onlySymbol_fst_declaration? source place.node declared
    exact hfst (by rw [hdeclared]; rfl)
  · exact .ite (CFamily.onlySymbol_fst_declaration? source place.node) .none
  · exact .none

theorem Cpp.onlySymbol_classify : OnlySymbol (Cpp.classify source scope place) := by
  unfold Cpp.classify
  dsimp only
  split
  · split
    · exact .some rfl
    · exact .none
  · split
    · exact .some rfl
    · exact .none
  · split
    · exact .some rfl
    · exact .none
  · exact .map fun _ => rfl
  · exact .map fun _ => rfl
  · exact .ite (CFamily.onlySymbol_fst_declaration? source place.node)
      (CFamily.onlySymbol_classify source scope place)
  · exact CFamily.onlySymbol_classify source scope place

theorem Scala.onlySymbol_classify : OnlySymbol (Scala.classify source scope place) := by
  unfold Scala.classify Scala.classifyValue
  dsimp only
  split
  · exact .map fun _ => rfl
  · exact .ite (.bind fun _ => .ite (.some rfl) .none) .none

/-- The node extends a type that may be declared elsewhere. -/
def ExtendsType (language : Language) (node : Node) : Prop :=
  language = .rust ∧ node.kind = "impl_item" ∨
    language = .swift ∧ node.kind = "class_declaration" ∧
      ∃ k, node.child? "declaration_kind" = some k ∧ k.kind = "extension"

/-- In Rust the scopes that are no symbols are those of impl blocks. -/
theorem Rust.extends_of_scopeOnly {d : Declared}
    (h : Rust.classify source scope place = some d) (hd : d.scopeOnly = true) :
    ExtendsType .rust place.node := by
  unfold Rust.classify at h
  dsimp only at h
  by_cases hkind : (place.node.kind == "impl_item") = true
  · exact .inl ⟨rfl, beq_iff_eq.mp hkind⟩
  · rw [if_neg hkind] at h
    have hsymbol : OnlySymbol (some d) := by
      rw [← h]
      split
      · exact .some rfl
      · exact .none
    rw [hsymbol d rfl] at hd
    cases hd

/-- In Swift the scopes that are no symbols are those of extensions. -/
theorem Swift.extends_of_scopeOnly {d : Declared}
    (h : Swift.classify source scope place = some d) (hd : d.scopeOnly = true) :
    ExtendsType .swift place.node := by
  by_cases hkind : place.node.kind = "class_declaration"
  · have hclass : Swift.classify source scope place = Swift.classifyType source place.node := by
      unfold Swift.classify
      dsimp only
      rw [hkind]
      simp only
    rw [hclass, Swift.classifyType] at h
    split at h
    · rename_i hextension
      obtain ⟨k, hk, hword⟩ := (Option.any_eq_true _ _).mp hextension
      exact .inr ⟨rfl, hkind, k, hk, beq_iff_eq.mp hword⟩
    · have hsymbol : OnlySymbol (some d) := h ▸ .map fun _ => rfl
      rw [hsymbol d rfl] at hd
      cases hd
  · have hsymbol : OnlySymbol (Swift.classify source scope place) := by
      unfold Swift.classify
      dsimp only
      split
      · exact absurd (by assumption) hkind
      · exact .map fun _ => rfl
      · exact .map fun _ => rfl
      · exact .map fun _ => rfl
      · exact .some rfl
      · exact .ite (.map fun _ => rfl) .none
      · exact .none
    rw [hsymbol d h] at hd
    cases hd

end CodeAtlas.Grammar

namespace CodeAtlas

open Syntax Grammar

/-- A declaration that is no symbol extends a type, in every grammar of the registry. -/
theorem Registry.extends_of_scopeOnly {g : Grammar} (hg : g ∈ Registry.grammars)
    {source : Source} {scope : Scope} {place : Cursor} {d : Declared}
    (h : g.classify source scope place = some d) (hd : d.scopeOnly = true) :
    ExtendsType g.language place.node := by
  have hno : OnlySymbol (g.classify source scope place) → ExtendsType g.language place.node := by
    intro hsymbol
    rw [hsymbol d h] at hd
    cases hd
  simp only [Registry.grammars, List.mem_cons, List.not_mem_nil, or_false] at hg
  rcases hg with rfl | rfl | rfl | rfl | rfl | rfl | rfl | rfl | rfl | rfl
  · exact hno (Python.onlySymbol_classify source scope place)
  · exact Rust.extends_of_scopeOnly source scope place h hd
  · exact hno (Script.onlySymbol_classify source scope place)
  · exact hno (Script.onlySymbol_classifyTyped source scope place)
  · exact hno (Go.onlySymbol_classify source scope place)
  · exact hno (Java.onlySymbol_classify source scope place)
  · exact hno (CFamily.onlySymbol_classify source scope place)
  · exact hno (Cpp.onlySymbol_classify source scope place)
  · exact Swift.extends_of_scopeOnly source scope place h hd
  · exact hno (Scala.onlySymbol_classify source scope place)

end CodeAtlas
