import CodeAtlas.Proofs.Grammar.Decisions
import CodeAtlas.Proofs.Grammar.Imports
import CodeAtlas.Registry
/-!
First occurrences. Of what is recorded of a file, the dependencies with a target are kept, and of
those with one key only the first (`firstOccurrences_distinct`). What is recorded are the imports in
the order of their places, and then what the nodes state in pre-order
(`dependencies_are_first_occurrences`).
-/
namespace CodeAtlas

namespace Dependency

/-- Whether a dependency at a position of a list has a target and none before it has its key. -/
def isFirst (recorded : List Dependency) (placed : Dependency × Nat) : Bool :=
  !(placed.1.target.isEmpty || ((recorded.take placed.2).map key).contains placed.1.key)

/-- What is kept of the recorded dependencies: each fact once, at its first place. -/
structure FirstOccurrences (recorded kept : List Dependency) : Prop where
  kept_eq : kept = (recorded.zipIdx.filter (isFirst recorded)).map Prod.fst
  nodup : (kept.map key).Nodup
  target_ne : ∀ d ∈ kept, d.target ≠ ""

-- Among the facts with a target, those that were met are those in front.
/-- Running through the rest with the keys seen before keeps the first occurrences of the whole
list. -/
theorem distinctFrom_eq (rest before : List Dependency)
    (seen : List (String × String × DependencyKind))
    (hseen : ∀ fact, fact.2.1 ≠ "" → (fact ∈ seen ↔ fact ∈ before.map key)) :
    distinctFrom seen rest =
      ((rest.zipIdx before.length).filter (isFirst (before ++ rest))).map Prod.fst := by
  induction rest generalizing before seen with
  | nil => rfl
  | cons d rest ih =>
    have hfirst : isFirst (before ++ d :: rest) (d, before.length) = true ↔
        ¬ (d.target.isEmpty || seen.contains d.key) = true := by
      have hfact := hseen d.key
      rw [isFirst, List.take_left, Bool.not_eq_true', ← Bool.not_eq_true, not_iff_not,
        Bool.or_eq_true, Bool.or_eq_true, List.contains_iff_mem, List.contains_iff_mem,
        String.isEmpty_iff]
      by_cases htarget : d.target = ""
      · simp only [htarget, true_or]
      · rw [hfact htarget]
    have hrest (seen' : List (String × String × DependencyKind))
        (hseen' : ∀ fact, fact.2.1 ≠ "" → (fact ∈ seen' ↔ fact = d.key ∨ fact ∈ seen)) :
        distinctFrom seen' rest =
          ((rest.zipIdx (before.length + 1)).filter (isFirst (before ++ d :: rest))).map
            Prod.fst := by
      have hbefore := ih (before ++ [d]) seen' ?_
      · rwa [List.length_append, List.length_singleton, List.append_assoc,
          List.singleton_append] at hbefore
      · intro fact hfact
        rw [hseen' fact hfact, hseen fact hfact, List.map_append, List.mem_append, or_comm,
          List.map_singleton, List.mem_singleton]
    rw [List.zipIdx_cons, distinctFrom]
    split
    case isTrue hdropped =>
      rw [List.filter_cons_of_neg (mt hfirst.mp (not_not_intro hdropped))]
      apply hrest
      intro fact hfact
      refine ⟨.inr, fun h => h.elim ?_ id⟩
      rintro rfl
      rw [Bool.or_eq_true, String.isEmpty_iff, List.contains_iff_mem] at hdropped
      exact hdropped.resolve_left hfact
    case isFalse hkept =>
      rw [List.filter_cons_of_pos (hfirst.mpr hkept), List.map_cons]
      exact congrArg (d :: ·) (hrest _ fun fact _ => List.mem_cons)

/-- No key is kept twice. -/
theorem nodup_keys_distinctFrom (deps : List Dependency)
    (seen : List (String × String × DependencyKind)) :
    ((distinctFrom seen deps).map key).Nodup := by
  induction deps generalizing seen with
  | nil => exact List.nodup_nil
  | cons d rest ih =>
    unfold distinctFrom
    split
    · exact ih seen
    · rw [List.map_cons, List.nodup_cons, mem_keys_distinctFrom]
      exact ⟨fun h => h.1 List.mem_cons_self, ih _⟩

/-- Dropping repetitions keeps the first occurrences. -/
theorem firstOccurrences_distinct (recorded : List Dependency) :
    FirstOccurrences recorded (distinct recorded) where
  kept_eq := distinctFrom_eq recorded [] [] fun _ _ => Iff.rfl
  nodup := nodup_keys_distinctFrom recorded []
  target_ne d hd := by
    obtain ⟨e, -, htarget, hkey⟩ := mem_keys_distinct.mp (List.mem_map_of_mem hd)
    have htargets : e.target = d.target := congrArg (·.2.1) hkey
    rwa [← htargets]

end Dependency

namespace Grammar

open Syntax

variable (g : Grammar) (source : Source)

/-- The imports are read in the order of their places. -/
theorem pairwise_start_importTargets (rules : List ImportRule) (root : Node) :
    (importTargets rules source root).Pairwise fun a b => a.start ≤ b.start := by
  unfold importTargets
  apply (List.pairwise_mergeSort ?_ ?_ _).imp of_decide_eq_true
  · intro a b c hab hbc
    rw [decide_eq_true_eq] at hab hbc ⊢
    exact Nat.le_trans hab hbc
  · intro a b
    rw [Bool.or_eq_true, decide_eq_true_eq, decide_eq_true_eq]
    exact Nat.le_total a.start b.start

end Grammar

namespace Outline

namespace Reader

/-- A line adds one import at most, with its own number. -/
theorem imports_record (r : Reader) (file : SourceFile) (number : Nat) (line trimmed : List Char) :
    (r.record file number line trimmed).found.imports = r.found.imports ∨
      ∃ target, (r.record file number line trimmed).found.imports =
        r.found.imports ++ [(target, number)] := by
  unfold record
  split
  · split
    · exact .inl rfl
    · split
      · exact .inr ⟨_, rfl⟩
      · exact .inl rfl
  · split
    · exact .inl rfl
    · split
      · exact .inr ⟨_, rfl⟩
      · split <;> exact .inl rfl

/-- A line adds at most one import, under its own number. -/
theorem imports_read (r : Reader) (file : SourceFile) (number : Nat) (line : List Char) :
    (r.read file number line).found.imports = r.found.imports ∨
      ∃ target, (r.read file number line).found.imports =
        r.found.imports ++ [(target, number)] := by
  unfold read
  dsimp only
  split
  · exact .inl rfl
  · split
    · exact .inl rfl
    · split
      · exact .inl rfl
      · exact imports_record (r.advance number line (Text.trim line)) file number line _

/-- The imports of a text stand on ever later lines. -/
theorem pairwise_imports_readAll (file : SourceFile) (lines : List (List Char)) (r : Reader)
    (number : Nat) (hsorted : (r.found.imports.map Prod.snd).Pairwise (· < ·))
    (hbefore : ∀ k ∈ r.found.imports.map Prod.snd, k < number) :
    ((readAll file r number lines).found.imports.map Prod.snd).Pairwise (· < ·) := by
  induction lines generalizing r number with
  | nil => exact hsorted
  | cons line lines ih =>
    rw [readAll]
    rcases imports_read r file number line with hsame | ⟨target, hmore⟩
    · apply ih
      · rwa [hsame]
      · rw [hsame]
        exact fun k hk => Nat.lt_succ_of_lt (hbefore k hk)
    · apply ih
      · rw [hmore, List.map_append, List.pairwise_append]
        refine ⟨hsorted, List.pairwise_singleton _ _, ?_⟩
        intro k hk l hl
        rw [List.mem_singleton.mp hl]
        exact hbefore k hk
      · intro k hk
        rw [hmore, List.map_append, List.mem_append] at hk
        rcases hk with hk | hk
        · exact Nat.lt_succ_of_lt (hbefore k hk)
        · rw [List.mem_singleton.mp hk]
          exact Nat.lt_succ_self number

end Reader

/-- The imports of a text are in the order of their lines, no two of which share one. -/
theorem pairwise_imports_ofBytes (file : SourceFile) (bytes : ByteArray) :
    ((ofBytes file bytes).imports.map Prod.snd).Pairwise (· < ·) := by
  unfold ofBytes
  split
  · exact .nil
  · exact Reader.pairwise_imports_readAll file _ Reader.start 1 .nil nofun

end Outline

open Syntax in
/-- What a plugin extracts from a file are the first occurrences of what it records: with a grammar
the imports in the order of their places, and then what the nodes state in pre-order; from a text
without a grammar the imports in the order of their lines. -/
theorem dependencies_are_first_occurrences :
    (∀ g ∈ Registry.grammars, ∀ (file : SourceFile) (reading : Reading) (tree : Tree),
      reading.source.tree = some tree →
      let imports := importTargets g.imports reading.source tree.root
      let met := g.encounters reading.source tree.root
      (∃ deps, (Plugin.ofGrammar g).dependencies file reading = .ok deps ∧
        Dependency.FirstOccurrences
          ((imports.flatMap fun n => (g.importNames reading.source file n).map fun target =>
              Grammar.dependencyFrom file none target .imports (reading.source.span n)) ++
            met.flatMap (g.dependenciesOf reading.source file)) deps) ∧
      imports.Perm (tree.root.subtree.flatMap fun n =>
        g.imports.flatMap fun r => r.targets reading.source n) ∧
      (imports.Pairwise fun a b => a.start ≤ b.start) ∧
      met.map Grammar.Encounter.place = tree.root.places) ∧
    ∀ (file : SourceFile) (reading : Reading),
      let imports := (Outline.ofBytes file reading.source.bytes).imports
      (∃ deps, Plugin.text.dependencies file reading = .ok deps ∧
        Dependency.FirstOccurrences
          (imports.map fun (target, line) =>
            ⟨file.moduleId, target, .imports, ⟨file.path, Span.ofLines line line⟩⟩) deps) ∧
      (imports.map Prod.snd).Pairwise (· < ·) := by
  constructor
  · intro g _ file reading tree htree
    refine ⟨⟨g.dependencies reading.source file tree.root, ?_,
      Dependency.firstOccurrences_distinct _⟩, List.mergeSort_perm _ _,
      Grammar.pairwise_start_importTargets reading.source g.imports tree.root,
      Grammar.map_place_encounters g reading.source tree.root⟩
    simp only [Plugin.ofGrammar, htree]
  · intro file reading
    exact ⟨⟨_, rfl, Dependency.firstOccurrences_distinct _⟩,
      Outline.pairwise_imports_ofBytes file reading.source.bytes⟩

def repeated : Syntax.Tree × Syntax.Source :=
  let node (id : Nat) (kind field : String) (start stop : Nat) (children : List Syntax.Node) :
      Syntax.Node := .mk ⟨id, kind, field, true, start, stop⟩ children
  let tree : Syntax.Tree := {
    root := node 0 "module" "" 0 28
      [node 1 "import_statement" "" 0 9 [node 2 "dotted_name" "name" 7 9 []],
        node 3 "call" "" 10 13
          [node 4 "identifier" "function" 10 11 [], node 5 "argument_list" "arguments" 11 13 []],
        node 6 "import_statement" "" 14 23 [node 7 "dotted_name" "name" 21 23 []],
        node 8 "call" "" 24 27
          [node 9 "identifier" "function" 24 25 [], node 10 "argument_list" "arguments" 25 27 []]]
    hasError := false }
  (tree, ⟨"import os\nf()\nimport os\nf()\n".toUTF8, some tree⟩)

theorem dependencies_are_first_occurrences_repeated :
    let file : SourceFile := .ofPath ⟨"a.py"⟩ .python 28
    let reading : Reading := ⟨repeated.2, .none, false, false⟩
    Grammar.Python.rules ∈ Registry.grammars ∧ reading.source.tree = some repeated.1 ∧
    ∃ recorded deps,
      (Plugin.ofGrammar Grammar.Python.rules).dependencies file reading = .ok deps ∧
      Dependency.FirstOccurrences recorded deps ∧
      recorded.map (fun d => (d.target, d.kind, d.location.span.startLine)) =
        [("os", .imports, 1), ("os", .imports, 3), ("f", .call, 2), ("f", .call, 4)] ∧
      deps.map (fun d => (d.target, d.kind, d.location.span.startLine)) =
        [("os", .imports, 1), ("f", .call, 2)] := by
  intro file reading
  have hgrammar : Grammar.Python.rules ∈ Registry.grammars := List.mem_cons_self
  obtain ⟨⟨deps, hdeps, hfirst⟩, -⟩ := dependencies_are_first_occurrences.1 _ hgrammar file reading
    repeated.1 rfl
  have himports : Syntax.importTargets Grammar.Python.rules.imports repeated.2 repeated.1.root =
      _ := List.mergeSort_of_pairwise (by decide +kernel)
  refine ⟨hgrammar, rfl, _, deps, hdeps, hfirst, ?_, ?_⟩
  · rw [himports, Grammar.encounters, Syntax.Node.traverse_eq_tour]
    decide +kernel
  · rw [hfirst.kept_eq, himports, Grammar.encounters, Syntax.Node.traverse_eq_tour]
    decide +kernel

end CodeAtlas
