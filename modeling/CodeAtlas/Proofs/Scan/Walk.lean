import CodeAtlas.FileFilter
import CodeAtlas.FileTree
import CodeAtlas.Proofs.Path.Below
import Mathlib.Data.List.Nodup
/-!
The files that a walk through a directory tree without links meets. They are the files that no
pruned directory hides (`mem_met_iff`), and the walk meets each of them once (`met_nodup`).
-/
namespace CodeAtlas

namespace FileTree

/-- A directory tree without links. The entries of a directory have different names, and each name
is one step of a path. -/
inductive Plain : FileTree → Prop where
  | file (source : Syntax.Source) : Plain (file source)
  | dir {entries : List (String × FileTree)} (steps : ∀ p ∈ entries, StepName p.1)
      (distinct : (entries.map Prod.fst).Nodup) (below : ∀ p ∈ entries, Plain p.2) :
      Plain (dir entries)

/-- The entry with a name is the one that the list holds. -/
theorem named?_eq_some_iff {entries : List (String × FileTree)}
    (h : (entries.map Prod.fst).Nodup) {name : String} {e : FileTree} :
    named? entries name = some e ↔ (name, e) ∈ entries := by
  unfold named?
  rw [Option.map_eq_some_iff]
  constructor
  · rintro ⟨⟨name', e'⟩, hfind, rfl⟩
    have hname : name' = name := by simpa using List.find?_some hfind
    exact hname ▸ List.mem_of_find?_eq_some hfind
  · intro hmem
    refine ⟨(name, e), ?_, rfl⟩
    rw [List.find?_eq_some_iff_append]
    refine ⟨by simp, ?_⟩
    obtain ⟨before, after, rfl⟩ := List.append_of_mem hmem
    refine ⟨before, after, rfl, ?_⟩
    intro p hp
    rw [List.map_append, List.map_cons, List.nodup_append] at h
    have hne := h.2.2 p.1 (List.mem_map_of_mem hp) name List.mem_cons_self
    simpa using hne

mutual

/-- The files that a walk meets at a place and below it, with their places. It does not enter a
directory that the filter prunes. -/
def met (f : FileFilter) (names : List String) : FileTree → List (List String × Syntax.Source)
  | file source => [(names, source)]
  | dir entries => if f.prunes (.ofNames names) then [] else metIn f names entries
  | link _ => []

def metIn (f : FileFilter) (names : List String) :
    List (String × FileTree) → List (List String × Syntax.Source)
  | [] => []
  | (name, e) :: rest => met f (names ++ [name]) e ++ metIn f names rest

end

variable {f : FileFilter} {names : List String}

theorem metIn_eq (entries : List (String × FileTree)) :
    metIn f names entries = entries.flatMap fun p => met f (names ++ [p.1]) p.2 := by
  induction entries with
  | nil => rfl
  | cons p rest ih => rw [metIn, ih, List.flatMap_cons]

/-- What is met below a directory has its names in front. -/
theorem prefix_of_mem_met {e : FileTree} (he : e.Plain) {v : List String × Syntax.Source}
    (hv : v ∈ met f names e) : names <+: v.1 := by
  induction he generalizing names with
  | file source =>
    obtain rfl := List.mem_singleton.mp hv
    exact List.prefix_rfl
  | dir steps distinct below ih =>
    rw [met] at hv
    split at hv
    · simp at hv
    · rw [metIn_eq] at hv
      obtain ⟨p, hp, hv⟩ := List.mem_flatMap.mp hv
      exact (List.prefix_append _ _).trans (ih p hp hv)

/-- A walk meets the files of the tree above which no directory is pruned. -/
theorem mem_met_iff {e : FileTree} (he : e.Plain) {v : List String × Syntax.Source} :
    v ∈ met f names e ↔ ∃ rest, v.1 = names ++ rest ∧ e.below? rest = some (file v.2) ∧
      ∀ front, front <+: rest → front ≠ rest → f.prunes (.ofNames (names ++ front)) = false := by
  induction he generalizing names with
  | file source =>
    rw [met, List.mem_singleton]
    constructor
    · rintro rfl
      refine ⟨[], by simp, rfl, ?_⟩
      intro front hfront hne
      exact absurd (List.prefix_nil.mp hfront) hne
    · rintro ⟨rest, hv, hfile, -⟩
      cases rest with
      | nil =>
        rw [List.append_nil] at hv
        cases hfile
        exact Prod.ext hv rfl
      | cons name rest => simp [below?] at hfile
  | @dir entries steps distinct below ih =>
    rw [met]
    by_cases hprunes : f.prunes (.ofNames names) = true
    · rw [if_pos hprunes]
      refine ⟨fun h => absurd h List.not_mem_nil, ?_⟩
      rintro ⟨rest, -, hfile, hopen⟩
      have hrest : [] ≠ rest := by
        rintro rfl
        simp [below?] at hfile
      have hfalse := hopen [] (List.nil_prefix) hrest
      rw [List.append_nil, hprunes] at hfalse
      cases hfalse
    · rw [if_neg hprunes, metIn_eq, List.mem_flatMap]
      constructor
      · -- One name more stands in front of the rest of the way, and of what is above the file.
        rintro ⟨⟨name, e⟩, hp, hv⟩
        obtain ⟨rest, hplace, hfile, hopen⟩ := (ih _ hp).mp hv
        refine ⟨name :: rest, by simpa using hplace, ?_, ?_⟩
        · rw [below?, (named?_eq_some_iff distinct).mpr hp]
          exact hfile
        · intro front hfront hne
          cases front with
          | nil => simpa using hprunes
          | cons step front =>
            obtain ⟨rfl, hbelow⟩ := List.cons_prefix_cons.mp hfront
            have hfalse := hopen front hbelow fun heq => hne (by rw [heq])
            simpa using hfalse
      · rintro ⟨rest, hplace, hfile, hopen⟩
        cases rest with
        | nil => simp [below?] at hfile
        | cons name rest =>
          rw [below?] at hfile
          obtain ⟨e, hname, hfile⟩ := Option.bind_eq_some_iff.mp hfile
          have hp := (named?_eq_some_iff distinct).mp hname
          refine ⟨(name, e), hp, (ih _ hp).mpr ⟨rest, by simpa using hplace, hfile, ?_⟩⟩
          intro front hfront hne
          have hfalse := hopen (name :: front) (List.cons_prefix_cons.mpr ⟨rfl, hfront⟩)
            fun heq => hne (List.cons.inj heq).2
          simpa using hfalse

/-- A walk meets no place twice. -/
theorem met_nodup {e : FileTree} (he : e.Plain) : ((met f names e).map Prod.fst).Nodup := by
  induction he generalizing names with
  | file source => simp [met]
  | @dir entries steps distinct below ih =>
    rw [met]
    split
    · simp
    · rw [metIn_eq, List.map_flatMap, List.nodup_flatMap]
      refine ⟨fun p hp => ih p hp, ?_⟩
      rw [List.nodup_iff_pairwise_ne, List.pairwise_map] at distinct
      refine distinct.imp_of_mem ?_
      intro p q hp hq hne place hplace hplace'
      obtain ⟨v, hv, rfl⟩ := List.mem_map.mp hplace
      obtain ⟨w, hw, hvw⟩ := List.mem_map.mp hplace'
      have hpre := prefix_of_mem_met (below p hp) hv
      have hpre' := prefix_of_mem_met (below q hq) hw
      rw [hvw] at hpre'
      have heq := List.prefix_or_prefix_of_prefix hpre hpre' |>.elim
        (fun h => h.eq_of_length (by simp)) fun h => (h.eq_of_length (by simp)).symm
      exact hne (List.cons.inj (List.append_cancel_left heq)).1

/-- The places that a walk meets lead down by names of steps. -/
theorem stepName_of_mem_met {e : FileTree} (he : e.Plain) (hnames : ∀ s ∈ names, StepName s)
    {v : List String × Syntax.Source} (hv : v ∈ met f names e) : ∀ s ∈ v.1, StepName s := by
  induction he generalizing names with
  | file source =>
    obtain rfl := List.mem_singleton.mp hv
    exact hnames
  | dir steps distinct below ih =>
    rw [met] at hv
    split at hv
    · simp at hv
    · rw [metIn_eq] at hv
      obtain ⟨p, hp, hv⟩ := List.mem_flatMap.mp hv
      refine ih p hp ?_ hv
      intro s hs
      rcases List.mem_append.mp hs with hs | hs
      · exact hnames s hs
      · exact List.mem_singleton.mp hs ▸ steps p hp

end FileTree

end CodeAtlas
