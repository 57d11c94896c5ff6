import CodeAtlas.Proofs.FileFilter.Validity
import CodeAtlas.Proofs.Glob.Covering
import CodeAtlas.Proofs.Path.Below
/-!
Pruning a directory against refusing its files. The patterns are asked for the directory itself and
for one entry with an invented name, so they may refuse both and still take files below. Pruning
loses nothing exactly if this never shows one level down, which without including patterns is a
condition on the texts that the excluding ones match (`CoversEntries`, `pruning_sound_iff`).
Patterns that end in a slash and stars meet it (`sound_of_coversBelow`), and so the default ones
(`sound_of_default_excludes`).
-/
namespace CodeAtlas.FileFilter

def excluded (f : FileFilter) (p : Path) : Bool :=
  anyMatches f.excludes (normal p)

/-- Whether a pattern asks for a path, or none asks for any. -/
def included (f : FileFilter) (p : Path) : Bool :=
  f.includes.all fun globs => anyMatches globs (normal p)

/-- Nothing below a pruned directory would be taken. -/
def PrunesSoundly (f : FileFilter) : Prop :=
  ∀ d p : Path, f.prunes d = true → p.Below d → f.accepts p = false

/-- Whenever the patterns match a directory, or the invented entry that stands for all in it, they
match every entry of it. -/
def CoversEntries (globs : List Glob) : Prop :=
  ∀ (dir : List String) (name : String), dir ≠ [] → (∀ s ∈ dir ++ [name], StepName s) →
    (anyMatches globs ("/".intercalate dir) = true ∨
      anyMatches globs ("/".intercalate (dir ++ [anyChild])) = true) →
    anyMatches globs ("/".intercalate (dir ++ [name])) = true

section Soundness

variable {f : FileFilter}

theorem accepts_eq (f : FileFilter) (p : Path) :
    f.accepts p = (!f.excluded p && f.included p) :=
  rfl

theorem prunes_eq (f : FileFilter) (d : Path) : f.prunes d = (!d.text.isEmpty &&
    (f.excluded d || anyMatches f.excludes (normal d ++ "/" ++ anyChild))) :=
  rfl

theorem accepts_congr {p q : Path} (h : p.components = q.components) :
    f.accepts p = f.accepts q := by
  have hnormal : normal p = normal q := by
    unfold normal Path.steps
    rw [h]
  rw [accepts_eq, accepts_eq, excluded, excluded, included, included, hnormal]

theorem accepts_of_excluded {p : Path} (h : f.excluded p = true) : f.accepts p = false := by
  rw [accepts_eq, h, Bool.not_true, Bool.false_and]

theorem accepts_eq_false_iff {p : Path} :
    f.accepts p = false ↔ (f.included p = true → f.excluded p = true) := by
  rw [accepts_eq]
  cases f.included p <;> cases f.excluded p <;> simp

theorem accepts_of_no_includes (hf : f.includes = none) (p : Path) :
    f.accepts p = !f.excluded p := by
  rw [accepts_eq, included, hf, Option.all_none, Bool.and_true]

theorem normal_entry {d : Path} (hd : d.steps ≠ []) (name : String) :
    normal d ++ "/" ++ name = "/".intercalate (d.steps ++ [name]) := by
  rw [String.intercalate_append_of_ne_nil hd (by simp), String.intercalate_singleton]
  rfl

theorem excluded_of_steps {p : Path} {steps : List String} (h : p.steps = steps) :
    f.excluded p = anyMatches f.excludes ("/".intercalate steps) := by
  rw [excluded, normal, h]

/-- A directory is asked for by itself and by an entry, which has one step more. -/
theorem prunes_iff_steps {d : Path} : f.prunes d = true ↔ d.steps ≠ [] ∧
    (anyMatches f.excludes ("/".intercalate d.steps) = true ∨
      anyMatches f.excludes ("/".intercalate (d.steps ++ [anyChild])) = true) := by
  rw [prunes_eq, Bool.and_eq_true, Bool.not_eq_true', ← Path.steps_ne_nil_iff]
  refine and_congr_right fun hd => ?_
  rw [Bool.or_eq_true, normal_entry hd]
  rfl

/-- An excluded path in a directory is pruned itself, if it is a directory. -/
theorem prunes_of_excluded {d p : Path} (hp : p.ChildOf d) (h : f.excluded p = true) :
    f.prunes p = true := by
  obtain ⟨name, hname⟩ := hp.exists_steps
  have hsteps : p.steps ≠ [] := by rw [hname]; simp
  exact prunes_iff_steps.mpr ⟨hsteps, .inl h⟩

/-- Looking one level down is enough: a pruned directory loses nothing if each path in it either is
excluded, so that it is pruned in turn, or holds nothing that would be taken. -/
theorem sound_of_children
    (h : ∀ d p : Path, f.prunes d = true → p.ChildOf d →
      f.excluded p = true ∨ ∀ q : Path, q.Within p → f.accepts q = false) :
    f.PrunesSoundly := by
  intro d p hd hp
  -- The induction is on how far the path lies below the directory.
  have hdepth : ∀ (n : Nat) (d : Path), p.components.length ≤ d.components.length + n →
      f.prunes d = true → p.Below d → f.accepts p = false := by
    intro n
    induction n with
    | zero =>
      intro d hn _ hp
      obtain ⟨-, rest, hrest, hsplit⟩ := hp
      have hpos := List.length_pos_of_ne_nil hrest
      rw [hsplit, List.length_append] at hn
      omega
    | succ n ih =>
      intro d hn hd hp
      obtain ⟨q, hq, hpq⟩ := hp.exists_child
      rcases h d q hd hq with hexcluded | hnone
      · rcases hpq.eq_or_below with heq | hbelow
        · rw [accepts_congr heq]
          exact accepts_of_excluded hexcluded
        · obtain ⟨c, hc⟩ := hq.2
          have hlen : q.components.length = d.components.length + 1 := by
            rw [hc, List.length_append, List.length_singleton]
          exact ih q (by omega) (prunes_of_excluded hq hexcluded) hbelow
      · exact hnone p hpq
  exact hdepth p.components.length d (by omega) hd hp

/-- A path in a pruned directory that is not excluded has nothing at or below it that would be
taken. -/
theorem PrunesSoundly.child (h : f.PrunesSoundly) {d p : Path} (hd : f.prunes d = true)
    (hp : p.ChildOf d) {q : Path} (hq : q.Within p) : f.accepts q = false :=
  h d q hd (hq.below hp.below)

theorem soundly_iff_children (hf : f.includes = none) : f.PrunesSoundly ↔
    ∀ d p : Path, f.prunes d = true → p.ChildOf d → f.excluded p = true := by
  constructor
  · intro h d p hd hp
    have hrefused := h.child hd hp (.refl hp.1)
    rwa [accepts_of_no_includes hf, Bool.not_eq_false'] at hrefused
  · intro h
    exact sound_of_children fun d p hd hp => .inl (h d p hd hp)

end Soundness

section Covering

variable {f : FileFilter}

/-- Paths in a directory are its entries, so the texts of the patterns tell the same as the
paths. -/
theorem coversEntries_iff : CoversEntries f.excludes ↔
    ∀ d p : Path, f.prunes d = true → p.ChildOf d → f.excluded p = true := by
  constructor
  · intro h d p hd hp
    obtain ⟨hsteps, hmatch⟩ := prunes_iff_steps.mp hd
    obtain ⟨name, hname⟩ := hp.exists_steps
    rw [excluded_of_steps hname]
    exact h d.steps name hsteps (hname ▸ hp.1.stepName) hmatch
  · intro h dir name hdir hnames hmatch
    have hdirs (s : String) (hs : s ∈ dir) : StepName s := hnames s (List.mem_append_left _ hs)
    have hchild : (Path.ofNames (dir ++ [name])).ChildOf (.ofNames dir) := by
      refine ⟨Path.descends_ofNames hnames, .name name, ?_⟩
      rw [Path.components_ofNames hnames, Path.components_ofNames hdirs, List.map_append]
      rfl
    have hprunes : f.prunes (.ofNames dir) = true := by
      rw [prunes_iff_steps, Path.steps_ofNames hdirs]
      exact ⟨hdir, hmatch⟩
    have hexcluded := h _ _ hprunes hchild
    rwa [excluded_of_steps (Path.steps_ofNames hnames)] at hexcluded

theorem sound_of_coversEntries (h : CoversEntries f.excludes) : f.PrunesSoundly :=
  sound_of_children fun d p hd hp => .inl (coversEntries_iff.mp h d p hd hp)

theorem textBytes_entry {dir : List String} (hdir : dir ≠ []) (name : String) :
    Glob.textBytes ("/".intercalate (dir ++ [name])) =
      Glob.textBytes ("/".intercalate dir) ++ 0x2F :: Glob.textBytes name := by
  have hslash : "/".toList.flatMap Glob.charBytes = [0x2F] := by decide
  rw [String.intercalate_append_of_ne_nil hdir (by simp), String.intercalate_singleton]
  unfold Glob.textBytes
  rw [String.toList_append, String.toList_append, List.flatMap_append, List.flatMap_append, hslash,
    List.append_assoc, List.singleton_append]

/-- Patterns that end in a slash and stars match all entries with the first. -/
theorem coversEntries_of_coversBelow {globs : List Glob}
    (h : ∀ g ∈ globs, g.coversBelow = true) : CoversEntries globs := by
  intro dir name hdir _ hmatch
  have hentry : 0x2F ∉ Glob.textBytes anyChild := by decide
  obtain ⟨g, hg, hadmits⟩ : ∃ g ∈ globs,
      g.admits (Glob.textBytes ("/".intercalate dir)) = true ∨
        g.admits (Glob.textBytes ("/".intercalate dir) ++ 0x2F :: Glob.textBytes anyChild) =
          true := by
    rcases hmatch with hmatch | hmatch
    · obtain ⟨g, hg, hadmits⟩ := List.any_eq_true.mp hmatch
      exact ⟨g, hg, .inl hadmits⟩
    · obtain ⟨g, hg, hadmits⟩ := List.any_eq_true.mp hmatch
      rw [Glob.admitsText, textBytes_entry hdir] at hadmits
      exact ⟨g, hg, .inr hadmits⟩
  refine List.any_eq_true.mpr ⟨g, hg, ?_⟩
  rw [Glob.admitsText, textBytes_entry hdir]
  exact Glob.admits_entry (h g hg) hentry hadmits _

theorem sound_of_coversBelow (h : ∀ g ∈ f.excludes, g.coversBelow = true) : f.PrunesSoundly :=
  sound_of_coversEntries (coversEntries_of_coversBelow h)

/-- The exclude patterns of a filter are the readings of those of its configuration. -/
theorem mapM_glob_ofConfig {config : Config} {f : FileFilter} (hf : ofConfig config = .ok f) :
    (config.excludePatterns ++ if config.useDefaultExcludes then Config.defaultExcludes
      else []).mapM Config.glob = .ok f.excludes := by
  unfold ofConfig at hf
  generalize (config.excludePatterns ++ if config.useDefaultExcludes = true then
    Config.defaultExcludes else []).mapM Config.glob = globs at hf ⊢
  have hlast : ∀ includes : Option (List Glob),
      (globs.bind fun excludes => .ok ⟨includes, excludes⟩) = .ok f → globs = .ok f.excludes := by
    intro includes h
    cases globs with
    | error e => cases h
    | ok excludes =>
      cases h
      rfl
  dsimp only at hf
  split at hf
  · exact hlast none hf
  · cases hincludes : config.includePatterns.mapM Config.glob with
    | error e =>
      rw [hincludes] at hf
      cases hf
    | ok includes =>
      rw [hincludes] at hf
      exact hlast (some includes) hf

/-- With the default patterns alone pruning loses nothing, whatever the including patterns are. -/
theorem sound_of_default_excludes {config : Config} {f : FileFilter}
    (hf : ofConfig config = .ok f) (hnone : config.excludePatterns = []) : f.PrunesSoundly := by
  have hdefaults : ∀ pattern ∈ Config.defaultExcludes,
      ((Config.glob pattern).toOption.any Glob.coversBelow) = true := by decide +kernel
  have hread := mapM_glob_ofConfig hf
  rw [hnone, List.nil_append] at hread
  refine sound_of_coversBelow fun g hg => ?_
  obtain ⟨pattern, hpattern, hglob⟩ := (mem_globs_iff hread).mp hg
  split at hpattern
  · have hcovers := hdefaults pattern hpattern
    rwa [hglob] at hcovers
  · simp at hpattern

end Covering

/-- Pruning loses nothing exactly if each path directly in a pruned directory is excluded, or all
that the including patterns ask for at or below it is. Without including patterns this is so exactly
if each such path is excluded, which is a condition on the patterns: those that match a directory or
its invented entry match all its entries. It is so whatever the including patterns are if all
excluding patterns end in a slash and stars, and so for the default patterns alone. -/
theorem pruning_sound_iff (f : FileFilter) :
    (f.PrunesSoundly ↔ ∀ d p : Path, f.prunes d = true → p.ChildOf d →
      f.excluded p = true ∨
        ∀ q : Path, q.Within p → f.included q = true → f.excluded q = true) ∧
    (f.includes = none →
      (f.PrunesSoundly ↔ ∀ d p : Path, f.prunes d = true → p.ChildOf d → f.excluded p = true) ∧
      (f.PrunesSoundly ↔ CoversEntries f.excludes)) ∧
    ((∀ g ∈ f.excludes, g.coversBelow = true) → f.PrunesSoundly) ∧
    ∀ config, ofConfig config = .ok f → config.excludePatterns = [] → f.PrunesSoundly := by
  refine ⟨⟨?_, ?_⟩, fun hf => ⟨soundly_iff_children hf, ?_⟩, sound_of_coversBelow,
    fun config hf hnone => sound_of_default_excludes hf hnone⟩
  · intro h d p hd hp
    exact .inr fun q hq => accepts_eq_false_iff.mp (h.child hd hp hq)
  · intro h
    refine sound_of_children fun d p hd hp => (h d p hd hp).imp_right fun hbelow q hq => ?_
    exact accepts_eq_false_iff.mpr (hbelow q hq)
  · rw [soundly_iff_children hf, coversEntries_iff]

/-- A configuration whose pattern matches the invented entry of a directory, but not its files. -/
def underscored : Config :=
  { excludePatterns := ["src/_*"] }

/-- Pruning may lose a file that the patterns take. -/
theorem pruning_not_sound : ¬ ∀ (config : Config) (languages : List Language) (f : FileFilter),
    config.validate = .ok languages → ofConfig config = .ok f → f.PrunesSoundly := by
  intro h
  have hvalid : underscored.validate.toOption = some [] := by decide +kernel
  have hloses : ((ofConfig underscored).toOption.map fun f =>
      f.prunes ⟨"src"⟩ && f.accepts ⟨"src/app.py"⟩) = some true := by decide +kernel
  cases hlanguages : underscored.validate with
  | error e =>
    rw [hlanguages] at hvalid
    cases hvalid
  | ok languages =>
    cases hf : ofConfig underscored with
    | error e =>
      rw [hf] at hloses
      cases hloses
    | ok f =>
      rw [hf] at hloses
      have hboth := Bool.and_eq_true_iff.mp (Option.some.inj hloses)
      have hbelow : (⟨"src/app.py"⟩ : Path).Below ⟨"src"⟩ := by
        have hcomponents : (⟨"src/app.py"⟩ : Path).components = [.name "src", .name "app.py"] := by
          decide +kernel
        refine ⟨?_, [.name "app.py"], by simp, hcomponents⟩
        intro c hc
        rw [hcomponents] at hc
        rcases List.mem_cons.mp hc with rfl | hc
        · exact ⟨_, rfl⟩
        · exact ⟨_, List.mem_singleton.mp hc⟩
      have hrefused := h underscored languages f hlanguages hf ⟨"src"⟩ _ hboth.1 hbelow
      rw [hboth.2] at hrefused
      cases hrefused

end CodeAtlas.FileFilter
