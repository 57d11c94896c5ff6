import CodeAtlas.Grammar.Rust
import CodeAtlas.Proofs.Grammar.Imports
import CodeAtlas.Proofs.Naming.Empty
import CodeAtlas.Proofs.Syntax.Places
/-!
Use declarations. Their paths start at the module of the file, wherever in the file they stand
(`anchored_eq`). The target is therefore what a path means in the innermost module around it exactly
if no other module is written around it, or if the path leads above all that are (`use_target_iff`).
-/
namespace CodeAtlas.Grammar.Rust

open Syntax

/-- The steps of a path from the root of the project, for a use in the module with the given
steps. -/
def fromRoot (module : List String) : List String → List String
  | "crate" :: rest => rest
  | "self" :: rest => module ++ rest
  | "super" :: rest => fromParents module.dropLast rest
  | steps => steps

section Anchor

theorem dotJoin_cons_dotParts (module : String) (rest : List String) :
    Text.dotJoin (module :: rest) = Text.dotJoin (Text.dotParts module ++ rest) := by
  by_cases hrest : rest = []
  · rw [hrest, List.append_nil, Text.dotJoin_singleton, Text.dotJoin_dotParts]
  · rw [← List.singleton_append, Text.dotJoin_append (by simp) hrest,
      Text.dotJoin_append (Text.dotParts_ne_nil module) hrest, Text.dotJoin_singleton,
      Text.dotJoin_dotParts]

/-- A path is written from the root of the project, step by step. -/
theorem anchored_eq (module path : String) :
    anchored module path = Text.dotJoin (fromRoot (Text.dotParts module) (Text.dotParts path)) := by
  unfold anchored
  split
  case h_1 rest hpath => rw [hpath, fromRoot]
  case h_2 rest hpath => rw [hpath, fromRoot, dotJoin_cons_dotParts]
  case h_3 rest hpath => rw [hpath, fromRoot, fromParents]
  case h_4 hcrate hself hsuper =>
    rw [fromRoot.eq_4 _ _ hcrate hself hsuper, Text.dotJoin_dotParts]

theorem fromParents_of_head_ne {base rest : List String} (h : rest.head? ≠ some "super") :
    fromParents base rest = base ++ rest := by
  unfold fromParents
  split
  · exact absurd rfl h
  · rfl

/-- Each step up drops one name, until none is left. -/
theorem fromParents_replicate {rest : List String} (h : rest.head? ≠ some "super")
    (base : List String) (k : Nat) : fromParents base (List.replicate k "super" ++ rest) =
      base.take (base.length - k) ++ rest := by
  induction k generalizing base with
  | zero => rw [List.replicate_zero, List.nil_append, fromParents_of_head_ne h, Nat.sub_zero,
      List.take_length]
  | succ k ih =>
    rw [List.replicate_succ, List.cons_append, fromParents, ih, List.length_dropLast,
      List.dropLast_eq_take, List.take_take, Nat.min_eq_left (by omega), Nat.sub_sub,
      Nat.add_comm 1 k]

theorem fromRoot_replicate {k : Nat} (hk : 0 < k) {rest : List String}
    (h : rest.head? ≠ some "super") (module : List String) :
    fromRoot module (List.replicate k "super" ++ rest) =
      module.take (module.length - k) ++ rest := by
  obtain ⟨k, rfl⟩ := Nat.exists_eq_add_of_lt hk
  rw [Nat.zero_add, ← fromParents_replicate h]
  rfl

end Anchor

/-- Names in the middle of others leave the joined text as it is only if there are none, or if there
is nothing else and they are one empty name. -/
theorem dotJoin_insert_eq_iff {front middle back : List String} :
    Text.dotJoin (front ++ back) = Text.dotJoin (front ++ middle ++ back) ↔
      middle = [] ∨ front ++ middle ++ back = [""] := by
  by_cases hmiddle : middle = []
  · simp [hmiddle]
  rw [or_iff_right hmiddle]
  by_cases hrest : front ++ back = []
  · obtain ⟨rfl, rfl⟩ := List.append_eq_nil_iff.mp hrest
    rw [List.nil_append, List.nil_append, List.append_nil, eq_comm]
    exact Text.dotJoin_eq_empty_iff.trans (or_iff_right hmiddle)
  · have hall : front ++ middle ++ back ≠ [] := by simp [hmiddle]
    have hone : front ++ middle ++ back ≠ [""] := by
      intro heq
      have hlength := congrArg List.length heq
      have hpos := List.length_pos_of_ne_nil hmiddle
      have hpos' := List.length_pos_of_ne_nil hrest
      simp only [List.length_append, List.length_singleton] at hlength hpos'
      omega
    refine iff_of_false ?_ hone
    obtain ⟨name, hname⟩ := List.exists_mem_of_ne_nil middle hmiddle
    have hparts : middle.flatMap Text.dotParts ≠ [] := fun hnil =>
      Text.dotParts_ne_nil name (List.flatMap_eq_nil_iff.mp hnil name hname)
    have hpos := List.length_pos_of_ne_nil hparts
    rw [Text.dotJoin_eq_iff hrest hall]
    intro heq
    have hlength := congrArg List.length heq
    simp only [List.flatMap_append, List.length_append] at hlength
    omega

def inlineModules (source : Source) (place : Cursor) : List String :=
  (place.ancestors.reverse.filter fun n => n.kind == "mod_item").filterMap
    fun n => source.textIn? n "name"

/-- The names on the way to the innermost module around a place of a file. -/
def modulePath (source : Source) (file : SourceFile) (place : Cursor) : List String :=
  Text.dotParts file.moduleId ++ inlineModules source place

/-- The use declaration at a place of a tree names a path. -/
structure UsesPath (source : Source) (root : Node) (place : Cursor) (path : String) : Prop where
  mem_places : place ∈ root.places
  named : place.node.named = true
  kind : place.node.kind = "use_declaration"
  written : ∃ n ∈ place.node.childrenIn "argument", n.named = true ∧ path ∈ usePaths source "" n

section Targets

variable {source : Source} {root : Node} {place : Cursor} {path : String}

/-- A path that is used is the target of an import. -/
theorem UsesPath.mem_importTargets (h : UsesPath source root place path) :
    ∃ n ∈ importTargets rules.imports source root, path ∈ usePaths source "" n := by
  obtain ⟨n, hn, hnamed, hpath⟩ := h.written
  refine ⟨n, Syntax.mem_importTargets.mpr ⟨place.node, ?_, _, List.mem_cons_self, ?_⟩, hpath⟩
  · rw [← root.map_node_places]
    exact List.mem_map_of_mem h.mem_places
  · unfold ImportRule.targets
    dsimp only
    rw [h.named, h.kind, beq_self_eq_true, Bool.and_self, if_pos rfl]
    exact List.mem_filter.mpr ⟨hn, by rw [hnamed]; rfl⟩

/-- A path of a use states an import unless it leads to the root. -/
theorem UsesPath.mem_keys (h : UsesPath source root place path) (file : SourceFile)
    (hne : anchored file.moduleId path ≠ "") :
    (file.moduleId, anchored file.moduleId path, .imports) ∈
      (rules.dependencies source file root).map Dependency.key := by
  obtain ⟨n, hn, hpath⟩ := h.mem_importTargets
  have hname : anchored file.moduleId path ∈ importNames source file n := by
    refine List.mem_filter.mpr ⟨List.mem_map_of_mem hpath, ?_⟩
    simpa using hne
  exact (mem_keys_dependencies hn hname).mpr hne

/-- A path from `self` starts at the module of the file. -/
theorem anchored_self {rest : List String} (hpath : Text.dotParts path = "self" :: rest)
    (file : SourceFile) :
    anchored file.moduleId path = Text.dotJoin (Text.dotParts file.moduleId ++ rest) ∧
    (anchored file.moduleId path = Text.dotJoin (modulePath source file place ++ rest) ↔
      inlineModules source place = []) := by
  have hanchored : anchored file.moduleId path =
      Text.dotJoin (Text.dotParts file.moduleId ++ rest) := by
    rw [anchored_eq, hpath, fromRoot]
  refine ⟨hanchored, ?_⟩
  rw [hanchored, modulePath, dotJoin_insert_eq_iff, or_iff_left_iff_imp]
  -- The module of the file has a part, so that nothing else can stand beside it.
  intro hone
  have hlength := congrArg List.length hone
  have hpos := List.length_pos_of_ne_nil (Text.dotParts_ne_nil file.moduleId)
  simp only [List.length_append, List.length_singleton] at hlength
  exact List.length_eq_zero_iff.mp (by omega)

/-- A path from `super` leaves the module of the file as often as the step is written. -/
theorem anchored_super {k : Nat} {rest : List String} (hk : 0 < k)
    (hdepth : k ≤ (modulePath source file place).length)
    (hpath : Text.dotParts path = List.replicate k "super" ++ rest)
    (hrest : rest.head? ≠ some "super") :
    anchored file.moduleId path = Text.dotJoin ((Text.dotParts file.moduleId).take
      ((Text.dotParts file.moduleId).length - k) ++ rest) ∧
    (anchored file.moduleId path = Text.dotJoin ((modulePath source file place).take
        ((modulePath source file place).length - k) ++ rest) ↔
      inlineModules source place = [] ∨ k = (modulePath source file place).length ∨
        (modulePath source file place).take ((modulePath source file place).length - k) ++ rest =
          [""]) := by
  have hanchored : anchored file.moduleId path = Text.dotJoin ((Text.dotParts file.moduleId).take
      ((Text.dotParts file.moduleId).length - k) ++ rest) := by
    rw [anchored_eq, hpath, fromRoot_replicate hk hrest]
  refine ⟨hanchored, ?_⟩
  unfold modulePath at hdepth ⊢
  rw [hanchored]
  generalize Text.dotParts file.moduleId = module at hdepth ⊢
  generalize inlineModules source place = inner at hdepth ⊢
  rw [List.length_append] at hdepth ⊢
  -- What the declaration's own modules leave stands between the names of the file and the rest.
  obtain ⟨middle, htake, hmiddle⟩ : ∃ middle, (module ++ inner).take
        (module.length + inner.length - k) = module.take (module.length - k) ++ middle ∧
      (middle = [] ↔ inner = [] ∨ k = module.length + inner.length) := by
    refine ⟨(module ++ inner).take (module.length + inner.length - k) |>.drop
      (module.length - k), ?_, ?_⟩
    · conv_lhs => rw [← List.take_append_drop (module.length - k) (List.take _ _)]
      rw [List.take_take, Nat.min_eq_left (by omega), List.take_append_of_le_length (by omega)]
    · rw [← List.length_eq_zero_iff, ← List.length_eq_zero_iff, List.length_drop,
        List.length_take, List.length_append]
      omega
  rw [htake, dotJoin_insert_eq_iff, hmiddle, or_assoc]

end Targets

/-- What the paths of a use declaration mean. From `self` and from `super` they start at the module
of the file. This is the innermost module around the declaration if no other is written around it;
otherwise a path from `self` means something else, and one from `super` does so too unless it leaves
all of these modules (or nothing is left of it but one empty name). Each target is a dependency
unless it is the root. -/
theorem use_target_iff {source : Source} {root : Node} {place : Cursor} {path : String}
    (h : UsesPath source root place path) (file : SourceFile) :
    (∀ rest, Text.dotParts path = "self" :: rest →
      anchored file.moduleId path = Text.dotJoin (Text.dotParts file.moduleId ++ rest) ∧
      (anchored file.moduleId path = Text.dotJoin (modulePath source file place ++ rest) ↔
        inlineModules source place = [])) ∧
    (∀ k rest, 0 < k → k ≤ (modulePath source file place).length →
      Text.dotParts path = List.replicate k "super" ++ rest → rest.head? ≠ some "super" →
      anchored file.moduleId path = Text.dotJoin ((Text.dotParts file.moduleId).take
        ((Text.dotParts file.moduleId).length - k) ++ rest) ∧
      (anchored file.moduleId path = Text.dotJoin ((modulePath source file place).take
          ((modulePath source file place).length - k) ++ rest) ↔
        inlineModules source place = [] ∨ k = (modulePath source file place).length ∨
          (modulePath source file place).take ((modulePath source file place).length - k) ++ rest =
            [""])) ∧
    (anchored file.moduleId path ≠ "" →
      (file.moduleId, anchored file.moduleId path, .imports) ∈
        (rules.dependencies source file root).map Dependency.key) := by
  refine ⟨?_, ?_, h.mem_keys file⟩
  · intro rest hpath
    exact anchored_self hpath file
  · intro k rest hk hdepth hpath hrest
    exact anchored_super hk hdepth hpath hrest

/-- A file with nothing but `mod tests { use super::*; }`. -/
def testsModule : SourceFile × Source × Node :=
  let node (id : Nat) (kind field : String) (start stop : Nat) (children : List Node) : Node :=
    .mk ⟨id, kind, field, true, start, stop⟩ children
  (.ofPath ⟨"src/a.rs"⟩ .rust 32, .plain "mod tests \x7b\n    use super::*;\n\x7d\n".toUTF8,
    node 0 "source_file" "" 0 32
      [node 1 "mod_item" "" 0 31
        [node 2 "identifier" "name" 4 9 [],
          node 3 "declaration_list" "body" 10 31
            [node 4 "use_declaration" "" 16 29
              [node 5 "use_wildcard" "argument" 20 28 [node 6 "super" "" 20 25 []]]]]])

def testsUse : Cursor :=
  testsModule.2.2.places.get ⟨4, by decide +kernel⟩

theorem testsUse_usesPath : UsesPath testsModule.2.1 testsModule.2.2 testsUse "super" where
  mem_places := List.get_mem _ _
  named := rfl
  kind := rfl
  written := ⟨_, List.mem_filter.mpr ⟨List.mem_cons_self, rfl⟩, rfl, by decide +kernel⟩

theorem use_target_iff_tests : anchored testsModule.1.moduleId "super" = "src" := by
  have htarget := ((use_target_iff testsUse_usesPath testsModule.1).2.1 1 [] Nat.one_pos
    (by decide +kernel) (by decide +kernel) (by decide)).1
  rw [htarget]
  decide +kernel

/-- In a module inside a file, a path from `super` means the directory of the file and not the
file. -/
theorem super_misses_file : ¬ ∀ (source : Source) (root : Node) (place : Cursor) (path : String)
    (file : SourceFile) (k : Nat) (rest : List String), UsesPath source root place path → 0 < k →
    k ≤ (modulePath source file place).length →
    Text.dotParts path = List.replicate k "super" ++ rest → rest.head? ≠ some "super" →
    anchored file.moduleId path = Text.dotJoin ((modulePath source file place).take
      ((modulePath source file place).length - k) ++ rest) := by
  intro h
  have hfile := h testsModule.2.1 testsModule.2.2 testsUse "super" testsModule.1 1 []
    testsUse_usesPath Nat.one_pos (by decide +kernel) (by decide +kernel) (by decide)
  exact absurd hfile (by decide +kernel)

end CodeAtlas.Grammar.Rust
