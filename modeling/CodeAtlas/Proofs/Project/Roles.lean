import CodeAtlas.Pattern
import CodeAtlas.Proofs.Ordered
import CodeAtlas.Proofs.Path.Components
import Mathlib.Data.List.Induction
/-!
The roles of files. Going down a path and keeping the last directory with a role finds the same role
as going up it to the first one (`roleOf?_eq`), and the directory that ends there
(`innermost?_eq_some_iff`). So the roles with directories are those that some file has
(`map_fst_roleDirs`). For layers the two ways are the two searches that must agree
(`layer_searches_agree`).
-/
namespace CodeAtlas

variable {R : Type} {role : String → Option R}

theorem map_fst_innermostFrom (above : Path) (found : Option (R × Path)) (steps : List String) :
    (innermostFrom role above found steps).map Prod.fst =
      (steps.reverse.findSome? role).or (found.map Prod.fst) := by
  induction steps generalizing above found with
  | nil => rfl
  | cons step rest ih =>
    rw [innermostFrom, ih, List.reverse_cons, List.findSome?_append, Option.or_assoc,
      List.findSome?_singleton]
    cases role step <;> rfl

theorem roleOf?_eq (path : Path) :
    roleOf? role path = path.parent?.bind fun dirs => dirs.steps.reverse.findSome? role := by
  unfold roleOf? innermost?
  rw [Option.map_bind]
  congr 1
  funext dirs
  rw [Function.comp_apply, map_fst_innermostFrom, Option.map_none, Option.or_none]

theorem Layer.ofPath?_eq (path : Path) : Layer.ofPath? path = roleOf? Layer.ofDir? path :=
  (roleOf?_eq path).symm

/-- The components of a path up to the last one that has a role. -/
structure UpToRole (role : String → Option R) (cs : List Component) (r : R)
    (front : List Component) : Prop where
  last : ∃ above c, front = above ++ [c] ∧ role c.text = some r
  beyond : ∃ back, cs = front ++ back ∧ ∀ c ∈ back, role c.text = none

section UpToRole

variable {cs front : List Component} {c : Component} {r : R}

/-- A last step with a role is the innermost one. -/
theorem upToRole_concat_of_some {r' : R} (hrole : role c.text = some r') :
    UpToRole role (cs ++ [c]) r front ↔ r' = r ∧ front = cs ++ [c] := by
  constructor
  · rintro ⟨⟨above, d, rfl, hd⟩, back, hsplit, hback⟩
    obtain rfl | ⟨back, e, rfl⟩ := List.eq_nil_or_concat' back
    · rw [List.append_nil] at hsplit
      obtain ⟨rfl, hlast⟩ := List.append_inj' hsplit rfl
      obtain rfl := List.singleton_inj.mp hlast
      exact ⟨Option.some.inj (hrole.symm.trans hd), rfl⟩
    · rw [← List.append_assoc] at hsplit
      obtain rfl := List.singleton_inj.mp (List.append_inj' hsplit rfl).2
      rw [hback c (List.mem_append_right back List.mem_cons_self)] at hrole
      cases hrole
  · rintro ⟨rfl, rfl⟩
    exact ⟨⟨cs, c, rfl, hrole⟩, [], (List.append_nil _).symm, nofun⟩

/-- A last step without a role leaves the innermost one as it is. -/
theorem upToRole_concat_of_none (hrole : role c.text = none) :
    UpToRole role (cs ++ [c]) r front ↔ UpToRole role cs r front := by
  constructor
  · rintro ⟨⟨above, d, rfl, hd⟩, back, hsplit, hback⟩
    obtain rfl | ⟨back, e, rfl⟩ := List.eq_nil_or_concat' back
    · rw [List.append_nil] at hsplit
      obtain rfl := List.singleton_inj.mp (List.append_inj' hsplit rfl).2
      rw [hrole] at hd
      cases hd
    · rw [← List.append_assoc] at hsplit
      exact ⟨⟨above, d, rfl, hd⟩, back, (List.append_inj' hsplit rfl).1,
        fun x hx => hback x (List.mem_append_left _ hx)⟩
  · rintro ⟨hlast, back, rfl, hback⟩
    refine ⟨hlast, back ++ [c], List.append_assoc _ _ _, fun x hx => ?_⟩
    rcases List.mem_append.mp hx with hx | hx
    · exact hback x hx
    · rw [List.mem_singleton.mp hx, hrole]

/-- They are the shortest components that leave none with a role behind them. -/
theorem UpToRole.shortest (h : UpToRole role cs r front) {longer : List Component}
    (hlonger : ∃ back, cs = longer ++ back ∧ ∀ c ∈ back, role c.text = none) :
    front <+: longer := by
  obtain ⟨⟨above, c, hfront, hc⟩, back, hsplit, -⟩ := h
  obtain ⟨back', hsplit', hback'⟩ := hlonger
  rcases List.prefix_or_prefix_of_prefix ⟨back, hsplit.symm⟩ ⟨back', hsplit'.symm⟩ with hle | hle
  · exact hle
  · obtain ⟨more, rfl⟩ := hle
    obtain rfl | ⟨more, d, rfl⟩ := List.eq_nil_or_concat' more
    · exact ⟨[], by simp⟩
    · rw [← List.append_assoc] at hfront
      obtain rfl := List.singleton_inj.mp (List.append_inj' hfront rfl).2
      rw [hsplit, List.append_assoc, List.append_cancel_left_eq] at hsplit'
      rw [hback' d (hsplit' ▸ by simp)] at hc
      cases hc

end UpToRole

/-- One component more counts exactly if it has a role. -/
theorem innermostFrom_concat {before after : List Component} {c : Component}
    (found : Option (R × Path)) (h : Path.Orderly (before ++ after ++ [c])) :
    innermostFrom role (.ofComponents before) found ((after ++ [c]).map Component.text) =
      match role c.text with
      | some r => some (r, .ofComponents (before ++ after ++ [c]))
      | none => innermostFrom role (.ofComponents before) found (after.map Component.text) := by
  induction after generalizing before found with
  | nil =>
    rw [List.append_nil] at h ⊢
    rw [List.nil_append, List.map_singleton, innermostFrom, Path.join_ofComponents h]
    cases role c.text <;> rfl
  | cons step rest ih =>
    have hsplit : before ++ step :: rest = before ++ [step] ++ rest := by
      rw [List.append_assoc, List.singleton_append]
    rw [hsplit] at h ⊢
    have hstep : Path.Orderly (before ++ [step]) :=
      h.front (by rw [List.append_assoc]; exact List.prefix_append _ _)
    rw [List.cons_append, List.map_cons, List.map_cons, innermostFrom, innermostFrom,
      Path.join_ofComponents hstep, ih _ h]

/-- The search along a path stops at its innermost step with a role. -/
theorem innermostFrom_eq_some_iff {cs : List Component} (h : Path.Orderly cs) {r : R}
    {dir : Path} : innermostFrom role ⟨""⟩ none (cs.map Component.text) = some (r, dir) ↔
      ∃ front, UpToRole role cs r front ∧ dir = .ofComponents front := by
  induction cs using List.reverseRecOn with
  | nil =>
    constructor
    · exact nofun
    · rintro ⟨front, ⟨⟨above, c, rfl, -⟩, back, hsplit, -⟩, -⟩
      simp at hsplit
  | append_singleton cs c ih =>
    have hconcat := @innermostFrom_concat R role [] cs c none h
    rw [List.nil_append] at hconcat
    change innermostFrom role (.ofComponents []) none _ = _ ↔ _
    rw [hconcat]
    cases hrole : role c.text with
    | none =>
      simp only [upToRole_concat_of_none hrole]
      exact ih (h.front (List.prefix_append cs [c]))
    | some r' =>
      simp only [upToRole_concat_of_some hrole, Option.some.injEq, Prod.mk.injEq]
      constructor
      · rintro ⟨rfl, rfl⟩
        exact ⟨_, ⟨rfl, rfl⟩, rfl⟩
      · rintro ⟨front, ⟨rfl, rfl⟩, rfl⟩
        exact ⟨rfl, rfl⟩

/-- A directory leads from the start of a path to the last of its components that has a role; it is
written with one slash between its components. -/
structure LeadsToRole (role : String → Option R) (path : Path) (r : R) (dir : Path) : Prop where
  reach : UpToRole role path.components r dir.components
  written : dir = .ofComponents dir.components

/-- The innermost directory with a role leads to the last one in the directory of the path. -/
theorem innermost?_eq_some_iff {path : Path} {r : R} {dir : Path} :
    innermost? role path = some (r, dir) ↔
      ∃ parent, path.parent? = some parent ∧ LeadsToRole role parent r dir := by
  unfold innermost?
  rw [Option.bind_eq_some_iff]
  refine exists_congr fun parent => and_congr_right fun _ => ?_
  have horderly := Path.orderly_components parent
  rw [Path.steps, innermostFrom_eq_some_iff horderly]
  constructor
  · rintro ⟨front, hreach, rfl⟩
    obtain ⟨back, hsplit, -⟩ := hreach.beyond
    have hcomponents := Path.components_ofComponents (horderly.front ⟨back, hsplit.symm⟩)
    exact ⟨hcomponents.symm ▸ hreach, by rw [hcomponents]⟩
  · rintro ⟨hreach, hwritten⟩
    exact ⟨_, hreach, hwritten⟩

namespace Pattern

variable [DecidableEq R]

/-- A role has a directory if some file has the role. -/
theorem dirs_ne_nil_iff (files : List SourceFile) (r : R) :
    ((files.filterMap fun f => innermost? role f.path).filter fun d => d.1 == r).map Prod.snd ≠ [] ↔
      ∃ f ∈ files, roleOf? role f.path = some r := by
  rw [ne_eq, List.map_eq_nil_iff, List.filter_eq_nil_iff]
  constructor
  · intro h
    by_contra hnone
    apply h
    intro d hd hr
    obtain ⟨f, hf, hinner⟩ := List.mem_filterMap.mp hd
    refine hnone ⟨f, hf, ?_⟩
    rw [roleOf?, hinner, Option.map_some, beq_iff_eq.mp hr]
  · rintro ⟨f, hf, hrole⟩ h
    obtain ⟨d, hinner, rfl⟩ := Option.map_eq_some_iff.mp hrole
    exact h d (List.mem_filterMap.mpr ⟨f, hf, hinner⟩) (beq_iff_eq.mpr rfl)

/-- The roles that have directories are those of the files. -/
theorem map_fst_roleDirs (roles : List R) (files : List SourceFile) :
    (roleDirs role roles files).map Prod.fst =
      roles.filter fun r => files.any fun f => roleOf? role f.path == some r := by
  unfold roleDirs
  dsimp only
  rw [List.filter_map, List.map_map]
  refine (List.map_id' _).trans (List.filter_congr ?_)
  intro r _
  rw [Function.comp_apply, Bool.eq_iff_iff, Bool.not_eq_true', ← Bool.not_eq_true,
    List.isEmpty_iff, Ordered.ofList_eq_nil_iff, ← ne_eq, dirs_ne_nil_iff, List.any_eq_true]
  simp only [beq_iff_eq]

/-- The layers that have directories are those of the files. -/
theorem map_fst_roleDirs_layers (files : List SourceFile) :
    (roleDirs Layer.ofDir? Layer.all files).map Prod.fst = layersOf files := by
  rw [map_fst_roleDirs, layersOf]
  simp only [Layer.ofPath?_eq]

end Pattern

/-- The two searches for layers agree. The scan downwards finds the layer of the path, together with
the directory that leads from the start of the parent to the last component named for a layer, the
shortest beginning of the parent with no such component behind it; so the layers that have
directories are those of the files. -/
theorem layer_searches_agree (path : Path) (files : List SourceFile) :
    (innermost? Layer.ofDir? path).map Prod.fst = Layer.ofPath? path ∧
    (∀ l dir, innermost? Layer.ofDir? path = some (l, dir) ↔
      ∃ parent, path.parent? = some parent ∧ LeadsToRole Layer.ofDir? parent l dir) ∧
    (∀ l dir parent, innermost? Layer.ofDir? path = some (l, dir) → path.parent? = some parent →
      ∀ front, (∃ back, parent.components = front ++ back ∧
        ∀ c ∈ back, Layer.ofDir? c.text = none) → dir.components <+: front) ∧
    (Pattern.roleDirs Layer.ofDir? Layer.all files).map Prod.fst = layersOf files := by
  refine ⟨(Layer.ofPath?_eq path).symm, fun l dir => innermost?_eq_some_iff, ?_,
    Pattern.map_fst_roleDirs_layers files⟩
  intro l dir parent hfound hparent front hfront
  obtain ⟨q, hq, hleads⟩ := innermost?_eq_some_iff.mp hfound
  rw [hparent, Option.some.injEq] at hq
  rw [← hq] at hleads
  exact hleads.reach.shortest hfront

/-- Of several directories named for layers the last one counts. -/
example : innermost? Layer.ofDir? ⟨"app//web/./DB/lib/x.py"⟩ = some (.data, ⟨"app/web/DB"⟩) := by
  decide +kernel

end CodeAtlas
