import CodeAtlas.Proofs.Grammar.Decisions
import CodeAtlas.Proofs.Outline.Decisions
/-!
The complexities of a file and of its callables. A file counts all of its decision points, and each
callable a part of them, which callables that are not declared one inside the other do not share
(`Shares`). So their complexities add up to no more than that of the file (`complexities_add_up`).
-/
namespace CodeAtlas

open Syntax Grammar

/-- In 32 bits the number of decision points is the complexity less one. -/
theorem toNat_complexityOf_sub_one {n : Nat} (h : n < UInt32.size) :
    (complexityOf n - 1).toNat = n := by
  rw [complexityOf, UInt32.add_comm, UInt32.add_sub_cancel]
  exact Nat.mod_eq_of_lt h

/-- What a symbol adds to the complexity of a file. -/
def Symbol.surplus (s : Symbol) : Nat :=
  s.complexity.elim 0 fun c => (c - 1).toNat

/-- The items of a file, some of which declare symbols, share out its decision points. -/
structure Shares {ι δ : Type} (cyclomatic : UInt32) (points : List δ) (items : List ι)
    (symbolOf : ι → Option Symbol) (pointsOf : ι → List δ) (Holds : ι → ι → Prop) : Prop where
  file : items ≠ [] → cyclomatic = complexityOf points.length
  symbols : ∀ i ∈ items, ∀ s ∈ symbolOf i, s.complexity =
    if s.kind.isCallable then some (complexityOf (pointsOf i).length) else none
  apart : ∀ chosen : List ι, chosen.Sublist items →
    (chosen.Pairwise fun outer inner => ¬ Holds outer inner) →
      (chosen.flatMap pointsOf).Sublist points

namespace Shares

variable {ι δ : Type} {cyclomatic : UInt32} {points : List δ} {items : List ι}
  {symbolOf : ι → Option Symbol} {pointsOf : ι → List δ} {Holds : ι → ι → Prop}
  (h : Shares cyclomatic points items symbolOf pointsOf Holds)
include h

theorem length_pointsOf_le {i : ι} (hi : i ∈ items) : (pointsOf i).length ≤ points.length := by
  have hone := h.apart [i] (List.singleton_sublist.mpr hi) (List.pairwise_singleton _ _)
  rw [List.flatMap_singleton] at hone
  exact hone.length_le

theorem surplus_le (hpoints : points.length < UInt32.size) {i : ι} (hi : i ∈ items) {s : Symbol}
    (hs : s ∈ symbolOf i) : s.surplus ≤ (pointsOf i).length := by
  rw [Symbol.surplus, h.symbols i hi s hs]
  split
  · exact (toNat_complexityOf_sub_one ((h.length_pointsOf_le hi).trans_lt hpoints)).le
  · exact Nat.zero_le _

/-- Symbols count no more decision points than lie in their items. -/
theorem total_surplus_le (hpoints : points.length < UInt32.size) {chosen : List ι}
    (hchosen : ∀ i ∈ chosen, i ∈ items) :
    total Symbol.surplus (chosen.filterMap symbolOf) ≤ (chosen.flatMap pointsOf).length := by
  induction chosen with
  | nil => exact le_rfl
  | cons i chosen ih =>
    obtain ⟨hi, hchosen⟩ := List.forall_mem_cons.mp hchosen
    have hrest := ih hchosen
    rw [List.filterMap_cons, List.flatMap_cons, List.length_append]
    cases hs : symbolOf i with
    | none =>
      dsimp only
      omega
    | some s =>
      have hfirst := h.surplus_le hpoints hi hs
      simp only [total]
      omega

end Shares

/-- As complexities stand one above numbers of decision points, their order is that of these
numbers. -/
theorem le_of_sub_one_le {c d : UInt32} (h : c - 1 ≤ d - 1) (hd : d ≠ 0) : c ≤ d := by
  have hpos : d.toNat ≠ 0 := fun hzero => hd (UInt32.toNat_inj.mp hzero)
  have hc := c.toNat_lt
  rw [UInt32.le_iff_toNat_le, UInt32.toNat_sub, UInt32.toNat_sub, UInt32.toNat_one] at h
  rw [UInt32.le_iff_toNat_le]
  omega

/-- The complexities of callables none of which is declared inside another one add up to no more
than that of the file, all of them less one, and no callable is more complex than the file. -/
structure AddsUp {ι δ : Type} (cyclomatic : UInt32) (points : List δ) (items : List ι)
    (symbolOf : ι → Option Symbol) (pointsOf : ι → List δ) (Holds : ι → ι → Prop) : Prop
    extends Shares cyclomatic points items symbolOf pointsOf Holds where
  total_le : points.length < UInt32.size → ∀ chosen : List ι, chosen.Sublist items →
    (chosen.Pairwise fun outer inner => ¬ Holds outer inner) →
      total Symbol.surplus (chosen.filterMap symbolOf) ≤ (cyclomatic - 1).toNat
  le : points.length < UInt32.size → ∀ i ∈ items, ∀ s ∈ symbolOf i, ∀ c ∈ s.complexity,
    c - 1 ≤ cyclomatic - 1 ∧ (cyclomatic ≠ 0 → c ≤ cyclomatic)

/-- Where the points are shared out, the complexities add up. -/
theorem Shares.addsUp {ι δ : Type} {cyclomatic : UInt32} {points : List δ} {items : List ι}
    {symbolOf : ι → Option Symbol} {pointsOf : ι → List δ} {Holds : ι → ι → Prop}
    (h : Shares cyclomatic points items symbolOf pointsOf Holds) :
    AddsUp cyclomatic points items symbolOf pointsOf Holds := by
  have hfile (hpoints : points.length < UInt32.size) {i : ι} (hi : i ∈ items) :
      (cyclomatic - 1).toNat = points.length := by
    rw [h.file (List.ne_nil_of_mem hi)]
    exact toNat_complexityOf_sub_one hpoints
  refine ⟨h, ?_, ?_⟩
  · intro hpoints chosen hchosen hapart
    cases chosen with
    | nil => exact Nat.zero_le _
    | cons i chosen =>
      calc total Symbol.surplus ((i :: chosen).filterMap symbolOf)
          ≤ ((i :: chosen).flatMap pointsOf).length :=
            h.total_surplus_le hpoints fun _ hi => hchosen.subset hi
        _ ≤ points.length := (h.apart _ hchosen hapart).length_le
        _ = (cyclomatic - 1).toNat := (hfile hpoints (hchosen.subset List.mem_cons_self)).symm
  · intro hpoints i hi s hs c hc
    have hle : c - 1 ≤ cyclomatic - 1 := by
      have hsurplus := h.surplus_le hpoints hi hs
      rw [Symbol.surplus, hc, Option.elim_some] at hsurplus
      rw [UInt32.le_iff_toNat_le, hfile hpoints hi]
      exact hsurplus.trans (h.length_pointsOf_le hi)
    exact ⟨hle, le_of_sub_one_le hle⟩

theorem Grammar.shares {g : Grammar} (hg : g ∈ Registry.grammars) (source : Source) (path : Path)
    (root : Node) :
    Shares (g.metrics source root).cyclomatic (decisionPoints g.decisions root)
      (g.encounters source root) (g.symbolOf source path)
      (fun e => decisionPoints g.decisions e.measured) Encounter.Holds where
  file _ := complexity_eq g.decisions root
  symbols _ _ _ hs := complexity_of_symbolOf hs
  apart _ := decisions_apart hg

/-- The decision points of a text are the lines on which they stand. -/
theorem Outline.shares (file : SourceFile) (bytes : ByteArray) :
    Shares ((ofBytes file bytes).metrics bytes).cyclomatic (decisionLines file bytes)
      (ofBytes file bytes).symbols some (Symbol.linesOf (decisionLines file bytes))
      fun outer inner => outer.span.Contains inner.span where
  file := cyclomatic_ofBytes
  symbols s hs t ht := by
    obtain rfl := Option.some.inj ht
    obtain ⟨lines, -, hcounted⟩ := counted_ofBytes file bytes
    exact (hcounted.counts s hs).complexity_eq
  apart _ := linesOf_apart

/-- In every file that a grammar or the text plugin reads the decision points are shared out among
the callables that are not declared one inside the other, so that their complexities add up to no
more than that of the file. Among the nodes of a tree those of a declaration lie inside it, and
among the symbols of a text those whose lines are among its own. -/
theorem complexities_add_up :
    (∀ g ∈ Registry.grammars, ∀ (file : SourceFile) (source : Source) (tree : Tree),
      source.tree = some tree → ∃ reading, (Plugin.ofGrammar g).read file source = .ok reading ∧
        (Plugin.ofGrammar g).symbols file reading =
          .ok ((g.encounters source tree.root).filterMap (g.symbolOf source file.path)) ∧
        AddsUp reading.metrics.cyclomatic (decisionPoints g.decisions tree.root)
          (g.encounters source tree.root) (g.symbolOf source file.path)
          (fun e => decisionPoints g.decisions e.measured) Encounter.Holds) ∧
    ∀ (file : SourceFile) (source : Source), ∃ reading symbols,
      Plugin.text.read file source = .ok reading ∧ Plugin.text.symbols file reading = .ok symbols ∧
        AddsUp reading.metrics.cyclomatic (Outline.decisionLines file source.bytes) symbols some
          (Symbol.linesOf (Outline.decisionLines file source.bytes))
          fun outer inner => outer.span.Contains inner.span := by
  constructor
  · intro g hg file source tree htree
    refine ⟨⟨source, g.metrics source tree.root, tree.hasError, false⟩, ?_, ?_, ?_⟩
    · simp only [Plugin.ofGrammar, htree]
    · simp only [Plugin.ofGrammar, htree]
      rfl
    · exact (shares hg source file.path tree.root).addsUp
  · intro file source
    exact ⟨_, _, rfl, rfl, (Outline.shares file source.bytes).addsUp⟩

/-- Two functions with one and two decision points, and one more behind them. -/
def twoFunctions : Tree :=
  let node (id : Nat) (kind field : String) (start stop : Nat) (children : List Node) : Node :=
    .mk ⟨id, kind, field, true, start, stop⟩ children
  { root := node 0 "module" "" 0 9
      [node 1 "function_definition" "" 0 3
        [node 2 "identifier" "name" 0 1 [],
          node 3 "block" "body" 1 3 [node 4 "if_statement" "" 1 3 []]],
        node 5 "function_definition" "" 3 7
          [node 6 "identifier" "name" 3 4 [],
            node 7 "block" "body" 4 7
              [node 8 "while_statement" "" 4 7 [node 9 "if_statement" "" 5 7 []]]],
        node 10 "if_statement" "" 7 9 []]
    hasError := false }

def twoFunctionSource : Source :=
  ⟨"fifgwhiif".toUTF8, some twoFunctions⟩

theorem complexities_add_up_twoFunctions :
    Grammar.Python.rules ∈ Registry.grammars ∧ twoFunctionSource.tree = some twoFunctions ∧
    (∃ reading, (Plugin.ofGrammar Grammar.Python.rules).read (.ofPath ⟨"a.py"⟩ .python 9)
        twoFunctionSource = .ok reading ∧
      (Plugin.ofGrammar Grammar.Python.rules).symbols (.ofPath ⟨"a.py"⟩ .python 9) reading =
        .ok ((Grammar.Python.rules.encounters twoFunctionSource twoFunctions.root).filterMap
          (Grammar.Python.rules.symbolOf twoFunctionSource ⟨"a.py"⟩)) ∧
      AddsUp reading.metrics.cyclomatic
        (decisionPoints Grammar.Python.rules.decisions twoFunctions.root)
        (Grammar.Python.rules.encounters twoFunctionSource twoFunctions.root)
        (Grammar.Python.rules.symbolOf twoFunctionSource ⟨"a.py"⟩)
        (fun e => decisionPoints Grammar.Python.rules.decisions e.measured) Encounter.Holds) ∧
    (Grammar.Python.rules.metrics twoFunctionSource twoFunctions.root).cyclomatic = 5 ∧
    (Grammar.Python.rules.symbols twoFunctionSource ⟨"a.py"⟩ twoFunctions.root).map
        Symbol.complexity = [some 2, some 3] := by
  have hgrammar : Grammar.Python.rules ∈ Registry.grammars := List.mem_cons_self
  have hadds := complexities_add_up.1 Grammar.Python.rules hgrammar (.ofPath ⟨"a.py"⟩ .python 9)
    twoFunctionSource twoFunctions rfl
  refine ⟨hgrammar, rfl, hadds, by decide +kernel, ?_⟩
  rw [Grammar.symbols, Grammar.encounters, Node.traverse_eq_tour]
  decide +kernel

end CodeAtlas
