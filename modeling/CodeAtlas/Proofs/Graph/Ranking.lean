import CodeAtlas.Graph.Resolve
import Mathlib.Data.Prod.Lex
import Mathlib.Order.OrderDual
import Mathlib.Tactic.Common
/-!
Choosing among candidates. Ranks are ordered by their keys, and the chosen candidate is the first
one with the least key.
-/
namespace CodeAtlas

namespace Rank

/-- Ranks as a linear order in which the better rank is the smaller one. -/
def key (r : Rank) : ℕᵒᵈ ×ₗ ℕ :=
  toLex (OrderDual.toDual r.depth, r.demerit)

theorem better_iff (a b : Rank) : a.better b = true ↔ a.key < b.key := by
  rw [key, key, Prod.Lex.toLex_lt_toLex]
  simp [better]

/-- Three faults weigh as their triple does, the first before the second before the third. -/
theorem faults_le_faults_iff (a b c a' b' c' : Bool) :
    faults a b c ≤ faults a' b' c' ↔
      toLex (a, toLex (b, c)) ≤ toLex (a', toLex (b', c')) := by
  revert a b c a' b' c'
  simp only [Prod.Lex.toLex_le_toLex]
  decide

end Rank

section BestBy

variable {α : Type} {rank : α → Rank}

/-- The fold behind `bestBy`: whatever precedes its result is worse, and nothing behind it is
better. -/
theorem foldl_best_spec {first a : α} {rest : List α}
    (h : rest.foldl (fun best b => if (rank b).better (rank best) then b else best) first = a) :
    ∃ before after, first :: rest = before ++ a :: after ∧
      (∀ b ∈ before, (rank a).key < (rank b).key) ∧ ∀ b ∈ after, (rank a).key ≤ (rank b).key := by
  induction rest generalizing first with
  | nil =>
    subst h
    exact ⟨[], [], by simp⟩
  | cons next rest ih =>
    rw [List.foldl_cons] at h
    by_cases hbetter : (rank next).better (rank first) = true
    · rw [if_pos hbetter] at h
      have hlt := (Rank.better_iff _ _).mp hbetter
      obtain ⟨before, after, hsplit, hbefore, hafter⟩ := ih h
      refine ⟨first :: before, after, by rw [hsplit, List.cons_append], ?_, hafter⟩
      have hle : (rank a).key ≤ (rank next).key := by
        have hmem : next ∈ before ++ a :: after := hsplit ▸ List.mem_cons_self
        rcases List.mem_append.mp hmem with hmem | hmem
        · exact (hbefore next hmem).le
        · rcases List.mem_cons.mp hmem with rfl | hmem
          · exact le_rfl
          · exact hafter next hmem
      intro b hb
      rcases List.mem_cons.mp hb with rfl | hb
      · exact lt_of_le_of_lt hle hlt
      · exact hbefore b hb
    · rw [if_neg hbetter] at h
      have hle := not_lt.mp (mt (Rank.better_iff _ _).mpr hbetter)
      obtain ⟨before, after, hsplit, hbefore, hafter⟩ := ih h
      cases before with
      | nil =>
        obtain ⟨rfl, rfl⟩ := List.cons.inj hsplit
        refine ⟨[], next :: rest, rfl, by simp, ?_⟩
        intro b hb
        rcases List.mem_cons.mp hb with rfl | hb
        · exact hle
        · exact hafter b hb
      | cons head before =>
        rw [List.cons_append] at hsplit
        obtain ⟨rfl, hrest⟩ := List.cons.inj hsplit
        refine ⟨first :: next :: before, after, by rw [hrest]; rfl, ?_, hafter⟩
        have hhead := hbefore first List.mem_cons_self
        intro b hb
        rcases List.mem_cons.mp hb with rfl | hb
        · exact hhead
        · rcases List.mem_cons.mp hb with rfl | hb
          · exact lt_of_lt_of_le hhead hle
          · exact hbefore b (List.mem_cons_of_mem _ hb)

/-- The first of the best: everything before it is worse and nothing behind it is better. -/
theorem bestBy_spec {xs : List α} {a : α} (h : bestBy rank xs = some a) :
    ∃ before after, xs = before ++ a :: after ∧
      (∀ b ∈ before, (rank a).key < (rank b).key) ∧ ∀ b ∈ after, (rank a).key ≤ (rank b).key := by
  cases xs with
  | nil => simp [bestBy] at h
  | cons first rest =>
    rw [bestBy, Option.some.injEq] at h
    exact foldl_best_spec h

theorem bestBy_eq_none_iff {xs : List α} : bestBy rank xs = none ↔ xs = [] := by
  cases xs <;> simp [bestBy]

end BestBy

namespace Candidate

/-- Whether a node may be the target of a dependency; only an import may mean a module. -/
def Usable (isImport : Bool) (n : GraphNode) : Prop :=
  isImport = true ∨ n.kind ≠ .module

def withNode? (nodes : Array GraphNode) (isImport : Bool) (c : Candidate) :
    Option (Candidate × GraphNode) :=
  match nodes[c.position]? with
  | none => none
  | some n => if isImport || n.kind != .module then some (c, n) else none

/-- A candidate is considered exactly if its node exists and can be used. -/
theorem withNode?_eq_some_iff {nodes : Array GraphNode} {isImport : Bool} {c : Candidate}
    {p : Candidate × GraphNode} : withNode? nodes isImport c = some p ↔
      p.1 = c ∧ nodes[c.position]? = some p.2 ∧ Usable isImport p.2 := by
  obtain ⟨c', n'⟩ := p
  unfold withNode? Usable
  cases hn : nodes[c.position]? with
  | none => simp
  | some n =>
    simp only [Option.ite_none_right_eq_some, Bool.or_eq_true, bne_iff_ne, Option.some.injEq,
      Prod.mk.injEq]
    constructor
    · rintro ⟨hu, rfl, rfl⟩
      exact ⟨rfl, rfl, hu⟩
    · rintro ⟨rfl, rfl, hu⟩
      exact ⟨hu, rfl, rfl⟩

theorem pick?_eq (nodes : Array GraphNode) (isImport : Bool) (o : Origin) (cs : List Candidate) :
    pick? nodes isImport o cs =
      (bestBy (fun p => p.2.rank isImport (p.1.resolution == .exact) o)
        (cs.filterMap (withNode? nodes isImport))).map Prod.fst :=
  rfl

/-- No candidate is chosen exactly if none is usable. -/
theorem pick?_eq_none_iff {nodes : Array GraphNode} {isImport : Bool} {o : Origin}
    {cs : List Candidate} : pick? nodes isImport o cs = none ↔
      ∀ c ∈ cs, ∀ n, nodes[c.position]? = some n → ¬ Usable isImport n := by
  rw [pick?_eq, Option.map_eq_none_iff, bestBy_eq_none_iff, List.filterMap_eq_nil_iff]
  constructor
  · intro h c hc n hn hu
    have hsome : withNode? nodes isImport c = some (c, n) :=
      withNode?_eq_some_iff.mpr ⟨rfl, hn, hu⟩
    rw [h c hc] at hsome
    cases hsome
  · intro h c hc
    cases hw : withNode? nodes isImport c with
    | none => rfl
    | some p =>
      obtain ⟨-, hn, hu⟩ := withNode?_eq_some_iff.mp hw
      exact absurd hu (h c hc p.2 hn)

/-- The chosen candidate is usable, the usable ones before it are worse, and no usable one behind it
is better. -/
theorem pick?_spec {nodes : Array GraphNode} {isImport : Bool} {o : Origin}
    {cs : List Candidate} {c : Candidate} (h : pick? nodes isImport o cs = some c) :
    ∃ n, nodes[c.position]? = some n ∧ Usable isImport n ∧
      ∃ before after, cs = before ++ c :: after ∧
        (∀ b ∈ before, ∀ m, nodes[b.position]? = some m → Usable isImport m →
          (n.rank isImport (c.resolution == .exact) o).key <
            (m.rank isImport (b.resolution == .exact) o).key) ∧
        ∀ b ∈ after, ∀ m, nodes[b.position]? = some m → Usable isImport m →
          (n.rank isImport (c.resolution == .exact) o).key ≤
            (m.rank isImport (b.resolution == .exact) o).key := by
  rw [pick?_eq, Option.map_eq_some_iff] at h
  obtain ⟨⟨c', n⟩, hbest, rfl⟩ := h
  obtain ⟨before, after, hsplit, hbefore, hafter⟩ := bestBy_spec hbest
  obtain ⟨csBefore, csRest, rfl, hcsBefore, hcsRest⟩ := List.filterMap_eq_append_iff.mp hsplit
  obtain ⟨skipped, c, csAfter, rfl, hskipped, hc, hcsAfter⟩ := List.filterMap_eq_cons_iff.mp hcsRest
  obtain ⟨rfl, hn, hu⟩ := withNode?_eq_some_iff.mp hc
  refine ⟨n, hn, hu, csBefore ++ skipped, csAfter, by simp, ?_, ?_⟩
  · intro b hb m hm hum
    have hw : withNode? nodes isImport b = some (b, m) :=
      withNode?_eq_some_iff.mpr ⟨rfl, hm, hum⟩
    rcases List.mem_append.mp hb with hb | hb
    · exact hbefore (b, m) (hcsBefore ▸ List.mem_filterMap.mpr ⟨b, hb, hw⟩)
    · rw [hskipped b hb] at hw
      cases hw
  · intro b hb m hm hum
    have hw : withNode? nodes isImport b = some (b, m) :=
      withNode?_eq_some_iff.mpr ⟨rfl, hm, hum⟩
    exact hafter (b, m) (hcsAfter ▸ List.mem_filterMap.mpr ⟨b, hb, hw⟩)

/-- If candidates that were found in the same way stand in the order of their positions, then the
chosen one has the best key, and the least position of those that share its key and were found as it
was. -/
theorem pick?_first {nodes : Array GraphNode} {isImport : Bool} {o : Origin} {cs : List Candidate}
    {c : Candidate}
    (hord : cs.Pairwise fun a b => a.resolution = b.resolution → a.position < b.position)
    (h : pick? nodes isImport o cs = some c) :
    c ∈ cs ∧ ∃ n, nodes[c.position]? = some n ∧ Usable isImport n ∧
      ∀ b ∈ cs, ∀ m, nodes[b.position]? = some m → Usable isImport m →
        (n.rank isImport (c.resolution == .exact) o).key ≤
            (m.rank isImport (b.resolution == .exact) o).key ∧
          ((m.rank isImport (b.resolution == .exact) o).key ≤
            (n.rank isImport (c.resolution == .exact) o).key →
            c.resolution = b.resolution → c.position ≤ b.position) := by
  obtain ⟨n, hn, hu, before, after, rfl, hbefore, hafter⟩ := pick?_spec h
  refine ⟨by simp, n, hn, hu, ?_⟩
  intro b hb m hm hum
  rcases List.mem_append.mp hb with hb | hb
  · have hlt := hbefore b hb m hm hum
    exact ⟨hlt.le, fun hle => absurd hlt (not_lt.mpr hle)⟩
  · rcases List.mem_cons.mp hb with rfl | hb
    · obtain rfl : n = m := Option.some.inj (hn.symm.trans hm)
      exact ⟨le_rfl, fun _ _ => le_rfl⟩
    · have hcons := (List.pairwise_append.mp hord).2.1
      exact ⟨hafter b hb m hm hum, fun _ hr => ((List.pairwise_cons.mp hcons).1 b hb hr).le⟩

end Candidate

end CodeAtlas
