import CodeAtlas.Proofs.Path.Components
/-!
Paths that lead down by names. Their components are exactly the lists of step names, so every path
below a directory passes through a path that lies directly in it.
-/
namespace CodeAtlas

namespace Path

def ofNames (names : List String) : Path :=
  ⟨"/".intercalate names⟩

theorem ofNames_eq (names : List String) : ofNames names = ofComponents (names.map .name) := by
  have htexts : (names.map Component.name).map Component.text = names := by
    rw [List.map_map]
    exact List.map_id' names
  cases names with
  | nil => rfl
  | cons first rest => exact congrArg (fun texts => Path.mk ("/".intercalate texts)) htexts.symm

theorem orderly_names {names : List String} (h : ∀ s ∈ names, StepName s) :
    Orderly (names.map .name) := by
  refine orderly_of_steps fun c hc => ?_
  obtain ⟨s, hs, rfl⟩ := List.mem_map.mp hc
  exact Component.isStep_name (h s hs)

theorem components_ofNames {names : List String} (h : ∀ s ∈ names, StepName s) :
    (ofNames names).components = names.map .name := by
  rw [ofNames_eq, components_ofComponents (orderly_names h)]

theorem components_ofNames_injective {names names' : List String}
    (h : ∀ s ∈ names, StepName s) (h' : ∀ s ∈ names', StepName s)
    (heq : (ofNames names).components = (ofNames names').components) :
    names = names' := by
  rw [components_ofNames h, components_ofNames h'] at heq
  exact List.map_injective_iff.mpr (fun _ _ hname => Component.name.inj hname) heq

/-- A name below the path of some names. -/
theorem join_ofNames {names : List String} {name : String} (hnames : ∀ s ∈ names, StepName s)
    (hname : StepName name) : (ofNames names).join ⟨name⟩ = .ofNames (names ++ [name]) := by
  have hall : Orderly (names.map .name ++ [.name name]) := by
    refine orderly_of_steps fun c hc => ?_
    rcases List.mem_append.mp hc with hc | hc
    · obtain ⟨s, hs, rfl⟩ := List.mem_map.mp hc
      exact Component.isStep_name (hnames s hs)
    · rw [List.mem_singleton.mp hc]
      exact Component.isStep_name hname
  rw [ofNames_eq, ofNames_eq, List.map_append, List.map_singleton]
  exact join_ofComponents (c := .name name) hall

/-- A path leads down by names only, as those that a scan meets below its root. -/
def Descends (p : Path) : Prop :=
  ∀ c ∈ p.components, ∃ s, c = .name s

theorem Descends.components_eq {p : Path} (hp : p.Descends) :
    p.components = p.steps.map .name := by
  unfold steps
  rw [List.map_map]
  conv_lhs => rw [← List.map_id p.components]
  refine List.map_congr_left fun c hc => ?_
  obtain ⟨s, rfl⟩ := hp c hc
  rfl

theorem Descends.stepName {p : Path} (hp : p.Descends) : ∀ s ∈ p.steps, StepName s := by
  intro s hs
  have hname : .name s ∈ p.components := by
    rw [hp.components_eq]
    exact List.mem_map_of_mem hs
  exact stepName_of_mem hname

theorem steps_ofNames {names : List String} (h : ∀ s ∈ names, StepName s) :
    (ofNames names).steps = names := by
  rw [steps, components_ofNames h, List.map_map]
  exact List.map_id' names

theorem descends_ofNames {names : List String} (h : ∀ s ∈ names, StepName s) :
    (ofNames names).Descends := by
  intro c hc
  rw [components_ofNames h] at hc
  obtain ⟨s, -, rfl⟩ := List.mem_map.mp hc
  exact ⟨s, rfl⟩

def Below (p d : Path) : Prop :=
  p.Descends ∧ ∃ rest, rest ≠ [] ∧ p.components = d.components ++ rest

def ChildOf (p d : Path) : Prop :=
  p.Descends ∧ ∃ c, p.components = d.components ++ [c]

def Within (p q : Path) : Prop :=
  p.Descends ∧ q.components <+: p.components

theorem ChildOf.exists_steps {p d : Path} (h : p.ChildOf d) :
    ∃ name, p.steps = d.steps ++ [name] := by
  obtain ⟨-, c, hc⟩ := h
  exact ⟨c.text, by rw [steps, steps, hc, List.map_append, List.map_singleton]⟩

theorem ChildOf.below {p d : Path} (h : p.ChildOf d) : p.Below d := by
  obtain ⟨hp, c, hc⟩ := h
  exact ⟨hp, [c], by simp, hc⟩

theorem Within.below {q p d : Path} (h : q.Within p) (hp : p.Below d) : q.Below d := by
  obtain ⟨-, rest, hrest, hsplit⟩ := hp
  obtain ⟨hq, more, hmore⟩ := h
  exact ⟨hq, rest ++ more, by simp [hrest], by rw [← hmore, hsplit, List.append_assoc]⟩

theorem Within.refl {p : Path} (h : p.Descends) : p.Within p :=
  ⟨h, List.prefix_rfl⟩

theorem Within.eq_or_below {p q : Path} (h : p.Within q) :
    p.components = q.components ∨ p.Below q := by
  obtain ⟨hp, rest, hrest⟩ := h
  by_cases hnil : rest = []
  · rw [hnil, List.append_nil] at hrest
    exact .inl hrest.symm
  · exact .inr ⟨hp, rest, hnil, hrest.symm⟩

/-- The first components of a path that leads down by names are those of such a path. -/
theorem Descends.exists_prefix {p : Path} (hp : p.Descends) {front : List Component}
    (h : front <+: p.components) : ∃ q : Path, q.Descends ∧ q.components = front := by
  have hcomponents := components_ofComponents ((orderly_components p).front h)
  refine ⟨ofComponents front, ?_, hcomponents⟩
  intro c hc
  rw [hcomponents] at hc
  exact hp c (h.subset hc)

/-- On the way to a path below a directory lies a path directly in it. -/
theorem Below.exists_child {p d : Path} (h : p.Below d) :
    ∃ q : Path, q.ChildOf d ∧ p.Within q := by
  obtain ⟨hp, rest, hrest, hsplit⟩ := h
  obtain ⟨c, rest, rfl⟩ := List.exists_cons_of_ne_nil hrest
  have hfront : d.components ++ [c] <+: p.components :=
    ⟨rest, by rw [hsplit, List.append_assoc, List.singleton_append]⟩
  obtain ⟨q, hq, hcomponents⟩ := hp.exists_prefix hfront
  exact ⟨q, ⟨hq, c, hcomponents⟩, hp, hcomponents ▸ hfront⟩

end Path

end CodeAtlas
