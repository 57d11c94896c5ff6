import CodeAtlas.Proofs.Graph.Declaration
import CodeAtlas.Proofs.Text.Parts
import Mathlib.Data.Prod.Lex
import Mathlib.Tactic.Common
/-!
What a written target means, said without any index: all declarations are looked through, and their
names are compared with the target part by part. Main statement: an import has at most one meaning
(`ImportMeans.unique`).
-/
namespace CodeAtlas

/-- The declaration at a position has exactly the parts of a target, or properly ends with them. -/
def Matches (ds : List Declaration) (parts : List String) (i : Nat) (r : Resolution) : Prop :=
  ∃ d, ds[i]? = some d ∧ (r = .exact ∧ Text.dotParts d.name = parts ∨
    r = .suffix ∧ ∃ front, front ≠ [] ∧ Text.dotParts d.name = front ++ parts)

/-- The declaration at a position is a module that properly begins with the parts of a directory. -/
def LiesIn (ds : List Declaration) (run : List String) (i : Nat) (r : Resolution) : Prop :=
  r = .package ∧ ∃ d, ds[i]? = some d ∧ d.kind = .module ∧
    ∃ back, back ≠ [] ∧ Text.dotParts d.name = run ++ back

/-- The runs of parts at the end of a target that may name a directory: all of it, or at least two
parts. -/
def UsableRun (target run : List String) : Prop :=
  run <:+ target ∧ (run = target ∨ 2 ≤ run.length)

/-- The parts that a target begins with, at least one of them and not all. -/
def ProperHead (target head : List String) : Prop :=
  head ≠ [] ∧ ∃ back, back ≠ [] ∧ target = head ++ back

/-- What counts against a declaration as the target of an import: first that only the end of its
name fits, then that it lies in another file, then that it is written in another language. -/
def Declaration.demerits (d : Declaration) (o : Origin) (r : Resolution) : Bool ×ₗ Bool ×ₗ Bool :=
  toLex (r != .exact, toLex (!d.file.same o.path, d.language != o.language))

/-- A candidate with the fewest demerits, and of those the first inserted. -/
structure FirstBest (ds : List Declaration) (o : Origin) (candidates : Nat → Resolution → Prop)
    (i : Nat) (r : Resolution) : Prop where
  mem : candidates i r
  least : ∀ d, ds[i]? = some d → ∀ j r' d', candidates j r' → ds[j]? = some d' →
    d.demerits o r ≤ d'.demerits o r' ∧ (d.demerits o r = d'.demerits o r' → i ≤ j)

/-- What an import means. The stages are tried in turn, and a later one counts only if no earlier
one has a candidate: declarations with the name, then modules in the longest directory that the
target ends with, then declarations with the longest head of the target that names one. -/
inductive ImportMeans (ds : List Declaration) (o : Origin) (target : List String) :
    Nat → Resolution → Prop where
  | name {i r} (best : FirstBest ds o (Matches ds target) i r) : ImportMeans ds o target i r
  | package {i r run} (unnamed : ∀ j r', ¬ Matches ds target j r') (usable : UsableRun target run)
      (longest : ∀ run', UsableRun target run' → run.length < run'.length →
        ∀ j r', ¬ LiesIn ds run' j r')
      (best : FirstBest ds o (LiesIn ds run) i r) : ImportMeans ds o target i r
  | head {i r front} (unnamed : ∀ j r', ¬ Matches ds target j r')
      (outside : ∀ run, UsableRun target run → ∀ j r', ¬ LiesIn ds run j r')
      (proper : ProperHead target front)
      (longest : ∀ front', ProperHead target front' → front.length < front'.length →
        ∀ j r', ¬ Matches ds front' j r')
      (best : FirstBest ds o (Matches ds front) i r) : ImportMeans ds o target i .head
  | external {i} (unnamed : ∀ j r', ¬ Matches ds target j r')
      (outside : ∀ run, UsableRun target run → ∀ j r', ¬ LiesIn ds run j r')
      (headless : ∀ front, ProperHead target front → ∀ j r', ¬ Matches ds front j r') :
      ImportMeans ds o target i .external

/-- What any other dependency means: a declaration with the name that is no module, if there is
one. -/
inductive UseMeans (ds : List Declaration) (target : List String) : Nat → Resolution → Prop where
  | name {i r d} (fits : Matches ds target i r) (found : ds[i]? = some d)
      (kind : d.kind ≠ .module) : UseMeans ds target i r
  | unresolved {i} (unnamed : ∀ j r d, Matches ds target j r → ds[j]? = some d →
      d.kind = .module) : UseMeans ds target i .unresolved

def Means (ds : List Declaration) (o : Origin) (d : Dependency) (i : Nat) (r : Resolution) : Prop :=
  if d.kind = .imports then ImportMeans ds o (Text.dotParts d.target) i r
  else UseMeans ds (Text.dotParts d.target) i r

section Unique

variable {ds : List Declaration} {o : Origin} {target : List String}

theorem Matches.getElem? {parts : List String} {i : Nat} {r : Resolution}
    (h : Matches ds parts i r) : ∃ d, ds[i]? = some d := by
  obtain ⟨d, hd, -⟩ := h
  exact ⟨d, hd⟩

theorem LiesIn.getElem? {run : List String} {i : Nat} {r : Resolution}
    (h : LiesIn ds run i r) : ∃ d, ds[i]? = some d := by
  obtain ⟨-, d, hd, -⟩ := h
  exact ⟨d, hd⟩

/-- A name cannot both have some parts and properly end with them. -/
theorem Matches.unique {parts : List String} {i : Nat} {r r' : Resolution}
    (h : Matches ds parts i r) (h' : Matches ds parts i r') : r = r' := by
  obtain ⟨d, hd, hr⟩ := h
  obtain ⟨d', hd', hr'⟩ := h'
  obtain rfl : d = d' := Option.some.inj (hd.symm.trans hd')
  have hclash : ∀ front : List String, front ≠ [] → parts ≠ front ++ parts := by
    intro front hne he
    have hl := congrArg List.length he
    have hf := List.length_pos_of_ne_nil hne
    rw [List.length_append] at hl
    omega
  rcases hr with ⟨rfl, hp⟩ | ⟨rfl, front, hne, hp⟩ <;>
    rcases hr' with ⟨rfl, hp'⟩ | ⟨rfl, front', hne', hp'⟩
  · rfl
  · exact absurd (hp.symm.trans hp') (hclash front' hne')
  · exact absurd (hp'.symm.trans hp) (hclash front hne)
  · rfl

theorem LiesIn.unique {run : List String} {i : Nat} {r r' : Resolution}
    (h : LiesIn ds run i r) (h' : LiesIn ds run i r') : r = r' :=
  h.1.trans h'.1.symm

/-- The first of the best is one position, found in one way. -/
theorem FirstBest.unique {candidates : Nat → Resolution → Prop} {i j : Nat} {r r' : Resolution}
    (hget : ∀ i r, candidates i r → ∃ d, ds[i]? = some d)
    (hone : ∀ i r r', candidates i r → candidates i r' → r = r')
    (h : FirstBest ds o candidates i r) (h' : FirstBest ds o candidates j r') :
    i = j ∧ r = r' := by
  obtain ⟨d, hd⟩ := hget i r h.mem
  obtain ⟨d', hd'⟩ := hget j r' h'.mem
  obtain ⟨hle, hfirst⟩ := h.least d hd j r' d' h'.mem hd'
  obtain ⟨hle', hfirst'⟩ := h'.least d' hd' i r d h.mem hd
  have heq := le_antisymm hle hle'
  obtain rfl : i = j := le_antisymm (hfirst heq) (hfirst' heq.symm)
  exact ⟨rfl, hone i r r' h.mem h'.mem⟩

theorem UsableRun.eq_of_length {run run' : List String} (h : UsableRun target run)
    (h' : UsableRun target run') (hl : run.length = run'.length) : run = run' :=
  (List.suffix_of_suffix_length_le h.1 h'.1 hl.le).eq_of_length hl

theorem ProperHead.eq_of_length {front front' : List String} (h : ProperHead target front)
    (h' : ProperHead target front') (hl : front.length = front'.length) : front = front' := by
  obtain ⟨-, back, -, hb⟩ := h
  obtain ⟨-, back', -, hb'⟩ := h'
  exact (List.append_inj (hb.symm.trans hb') hl).1

/-- An import has at most one meaning, apart from the position of what stands for an external
target. -/
theorem ImportMeans.unique {i j : Nat} {r r' : Resolution} (h : ImportMeans ds o target i r)
    (h' : ImportMeans ds o target j r') : r = r' ∧ (r ≠ .external → i = j) := by
  cases h with
  | name best =>
    cases h' with
    | name best' =>
      obtain ⟨hi, hr⟩ := best.unique (fun _ _ h => h.getElem?) (fun _ _ _ h h' => h.unique h') best'
      exact ⟨hr, fun _ => hi⟩
    | package unnamed => exact absurd best.mem (unnamed _ _)
    | head unnamed => exact absurd best.mem (unnamed _ _)
    | external unnamed => exact absurd best.mem (unnamed _ _)
  | package unnamed usable longest best =>
    cases h' with
    | name best' => exact absurd best'.mem (unnamed _ _)
    | package _ usable' longest' best' =>
      have hle := not_lt.mp fun hlt => longest _ usable' hlt _ _ best'.mem
      have hle' := not_lt.mp fun hlt => longest' _ usable hlt _ _ best.mem
      obtain rfl := usable.eq_of_length usable' (le_antisymm hle' hle)
      obtain ⟨hi, hr⟩ := best.unique (fun _ _ h => h.getElem?) (fun _ _ _ h h' => h.unique h') best'
      exact ⟨hr, fun _ => hi⟩
    | head _ outside => exact absurd best.mem (outside _ usable _ _)
    | external _ outside => exact absurd best.mem (outside _ usable _ _)
  | head unnamed outside proper longest best =>
    cases h' with
    | name best' => exact absurd best'.mem (unnamed _ _)
    | package _ usable' _ best' => exact absurd best'.mem (outside _ usable' _ _)
    | head _ _ proper' longest' best' =>
      have hle := not_lt.mp fun hlt => longest _ proper' hlt _ _ best'.mem
      have hle' := not_lt.mp fun hlt => longest' _ proper hlt _ _ best.mem
      obtain rfl := proper.eq_of_length proper' (le_antisymm hle' hle)
      obtain ⟨hi, -⟩ := best.unique (fun _ _ h => h.getElem?) (fun _ _ _ h h' => h.unique h') best'
      exact ⟨rfl, fun _ => hi⟩
    | external _ _ headless => exact absurd best.mem (headless _ proper _ _)
  | external unnamed outside headless =>
    cases h' with
    | name best' => exact absurd best'.mem (unnamed _ _)
    | package _ usable' _ best' => exact absurd best'.mem (outside _ usable' _ _)
    | head _ _ proper' _ best' => exact absurd best'.mem (headless _ proper' _ _)
    | external => exact ⟨rfl, fun h => absurd rfl h⟩

end Unique

end CodeAtlas
