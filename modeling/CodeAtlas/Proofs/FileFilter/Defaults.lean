import CodeAtlas.Proofs.FileFilter.Pruning
import CodeAtlas.Proofs.Glob.Anywhere
/-!
The default patterns. Each asks for the name of a directory anywhere in a path, so a path is
excluded exactly if one of its directories has such a name, and a directory is pruned exactly if it
or one above it has (`default_excludes_iff`). Names that only begin or end like one of them do not
count.
-/
namespace CodeAtlas.FileFilter

section Texts

/-- The bytes of a path are those of its steps with a slash between them. -/
theorem textBytes_join (parts : List String) : Glob.textBytes ("/".intercalate parts) =
    [0x2F].intercalate (parts.map Glob.textBytes) := by
  have hslash : "/".toList.flatMap Glob.charBytes = [0x2F] := by decide
  unfold Glob.textBytes
  rw [String.toList_intercalate]
  induction parts with
  | nil => rfl
  | cons first rest ih =>
    by_cases hrest : rest = []
    · simp [hrest]
    · have hmap {β : Type} (f : String → β) : rest.map f ≠ [] := by simp [hrest]
      rw [List.map_cons, List.map_cons, List.intercalate_cons_of_ne_nil (hmap _),
        List.intercalate_cons_of_ne_nil (hmap _), List.flatMap_append, List.flatMap_append, hslash,
        ih]

/-- No step holds a slash, so the directories in the text are the steps but the last. -/
theorem dropLast_pieces {steps : List String} (h : ∀ s ∈ steps, '/' ∉ s.toList) :
    ((Glob.textBytes ("/".intercalate steps)).splitOn 0x2F).dropLast =
      (steps.map Glob.textBytes).dropLast := by
  rw [textBytes_join]
  by_cases hnil : steps = []
  · rw [hnil]
    rfl
  · have hpieces : ∀ piece ∈ steps.map Glob.textBytes, 0x2F ∉ piece := by
      intro piece hpiece
      obtain ⟨s, hs, rfl⟩ := List.mem_map.mp hpiece
      exact fun hmem => h s hs (Glob.slash_mem_textBytes.mp hmem)
    rw [List.splitOn_intercalate 0x2F hpieces (by simp [hnil])]

end Texts

section Steps

variable {p : Path}

theorem slash_notMem_steps (hp : p.Descends) : ∀ s ∈ p.steps, '/' ∉ s.toList :=
  fun s hs => (hp.stepName s hs).slash

theorem name_mem_dropLast_iff (hp : p.Descends) (s : String) :
    Component.name s ∈ p.components.dropLast ↔ s ∈ p.steps.dropLast := by
  have hinjective : Function.Injective Component.name := fun _ _ h => Component.name.inj h
  rw [hp.components_eq, ← List.map_dropLast, List.mem_map_of_injective hinjective]

theorem name_mem_iff (hp : p.Descends) (s : String) :
    Component.name s ∈ p.components ↔ s ∈ p.steps := by
  have hinjective : Function.Injective Component.name := fun _ _ h => Component.name.inj h
  rw [hp.components_eq, List.mem_map_of_injective hinjective]

end Steps

def directoryGlob (dir : String) : Glob :=
  ⟨.leading :: dir.toList.map Glob.Token.char ++ [.trailing]⟩

section Patterns

/-- A default pattern is read as the name of its directory between two wild parts. -/
theorem glob_default {dir : String} (hdir : dir ∈ Config.defaultExcludedDirs) :
    Config.glob ("**/" ++ dir ++ "/**") = .ok (directoryGlob dir) := by
  have hsigns : ∀ dir ∈ Config.defaultExcludedDirs,
      (dir.toList.all fun c => !Glob.signs.contains c) = true := by decide
  have hchars : ∀ c ∈ dir.toList, c ∉ Glob.signs := by
    have hall := List.all_eq_true.mp (hsigns dir hdir)
    intro c hc hmem
    exact absurd (hall c hc) (by rw [List.contains_iff_mem.mpr hmem]; exact Bool.false_ne_true)
  unfold Config.glob
  rw [Glob.read_anywhere hchars]
  rfl

/-- Such a pattern admits a path exactly if one of its steps but the last is the directory. -/
theorem directoryGlob_admits_iff {dir : String} (hdir : dir ∈ Config.defaultExcludedDirs)
    {steps : List String} (h : ∀ s ∈ steps, '/' ∉ s.toList) :
    (directoryGlob dir).admitsText ("/".intercalate steps) = true ↔ dir ∈ steps.dropLast := by
  have hslash : ∀ dir ∈ Config.defaultExcludedDirs, '/' ∉ dir.toList := by decide
  unfold Glob.admitsText
  rw [directoryGlob, Glob.admits_anywhere_iff (hslash dir hdir), dropLast_pieces h,
    ← List.map_dropLast, List.mem_map_of_injective Glob.textBytes_injective]

variable {config : Config} {f : FileFilter} {dir : String} {steps : List String}

/-- The default patterns are among those that exclude. -/
theorem directoryGlob_mem_excludes (hf : ofConfig config = .ok f)
    (hdefaults : config.useDefaultExcludes = true) (hdir : dir ∈ Config.defaultExcludedDirs) :
    directoryGlob dir ∈ f.excludes := by
  have hread := mapM_glob_ofConfig hf
  rw [hdefaults, if_pos rfl] at hread
  have hpattern : "**/" ++ dir ++ "/**" ∈ config.excludePatterns ++ Config.defaultExcludes :=
    List.mem_append_right _ (List.mem_map_of_mem hdir)
  exact (mem_globs_iff hread).mpr ⟨_, hpattern, glob_default hdir⟩

/-- Without others they are all that exclude. -/
theorem exists_of_mem_excludes (hf : ofConfig config = .ok f)
    (hnone : config.excludePatterns = []) {g : Glob} (hg : g ∈ f.excludes) :
    ∃ dir ∈ Config.defaultExcludedDirs, g = directoryGlob dir := by
  have hread := mapM_glob_ofConfig hf
  rw [hnone, List.nil_append] at hread
  obtain ⟨pattern, hpattern, hglob⟩ := (mem_globs_iff hread).mp hg
  split at hpattern
  · obtain ⟨dir, hdir, rfl⟩ := List.mem_map.mp hpattern
    rw [glob_default hdir] at hglob
    exact ⟨dir, hdir, (Except.ok.inj hglob).symm⟩
  · exact absurd hpattern List.not_mem_nil

theorem anyMatches_of_mem (hf : ofConfig config = .ok f)
    (hdefaults : config.useDefaultExcludes = true) (hsteps : ∀ s ∈ steps, '/' ∉ s.toList)
    (hdir : dir ∈ Config.defaultExcludedDirs) (hmem : dir ∈ steps.dropLast) :
    anyMatches f.excludes ("/".intercalate steps) = true :=
  List.any_eq_true.mpr ⟨_, directoryGlob_mem_excludes hf hdefaults hdir,
    (directoryGlob_admits_iff hdir hsteps).mpr hmem⟩

/-- The default patterns alone match a path exactly if it leads through one of the directories. -/
theorem anyMatches_iff (hf : ofConfig config = .ok f)
    (hdefaults : config.useDefaultExcludes = true) (hnone : config.excludePatterns = [])
    (hsteps : ∀ s ∈ steps, '/' ∉ s.toList) :
    anyMatches f.excludes ("/".intercalate steps) = true ↔
      ∃ dir ∈ Config.defaultExcludedDirs, dir ∈ steps.dropLast := by
  constructor
  · intro h
    obtain ⟨g, hg, hadmits⟩ := List.any_eq_true.mp h
    obtain ⟨dir, hdir, rfl⟩ := exists_of_mem_excludes hf hnone hg
    exact ⟨dir, hdir, (directoryGlob_admits_iff hdir hsteps).mp hadmits⟩
  · rintro ⟨dir, hdir, hmem⟩
    exact anyMatches_of_mem hf hdefaults hsteps hdir hmem

end Patterns

section Filter

variable {config : Config} {f : FileFilter}

/-- The entry that is asked for has one step more than the directory, so that its directories are
the steps of that one. -/
theorem prunes_iff (hf : ofConfig config = .ok f) (hdefaults : config.useDefaultExcludes = true)
    (hnone : config.excludePatterns = []) {d : Path} (hd : d.Descends) :
    f.prunes d = true ↔ ∃ dir ∈ Config.defaultExcludedDirs, dir ∈ d.steps := by
  have hsteps := slash_notMem_steps hd
  have hchild : ∀ s ∈ d.steps ++ [anyChild], '/' ∉ s.toList := by
    intro s hs
    rcases List.mem_append.mp hs with hs | hs
    · exact hsteps s hs
    · rw [List.mem_singleton.mp hs]
      decide
  have hentry := anyMatches_iff hf hdefaults hnone hchild
  rw [List.dropLast_concat] at hentry
  rw [prunes_iff_steps, hentry]
  constructor
  · rintro ⟨-, hself | habove⟩
    · obtain ⟨dir, hdir, hmem⟩ := (anyMatches_iff hf hdefaults hnone hsteps).mp hself
      exact ⟨dir, hdir, List.dropLast_subset _ hmem⟩
    · exact habove
  · rintro ⟨dir, hdir, hmem⟩
    exact ⟨List.ne_nil_of_mem hmem, .inr ⟨dir, hdir, hmem⟩⟩

end Filter

/-- With the default patterns alone a path is refused exactly if a component of it but the last is
one of the directories, and a directory is pruned exactly if a component of it is. With other
patterns beside them the paths below such a directory are refused as well. -/
theorem default_excludes_iff {config : Config} (hdefaults : config.useDefaultExcludes = true) :
    (config.includePatterns = [] → config.excludePatterns = [] →
      ∃ f, ofConfig config = .ok f ∧
        (∀ p : Path, p.Descends → (f.accepts p = false ↔
          ∃ dir ∈ Config.defaultExcludedDirs, .name dir ∈ p.components.dropLast)) ∧
        ∀ d : Path, d.Descends → (f.prunes d = true ↔
          ∃ dir ∈ Config.defaultExcludedDirs, .name dir ∈ d.components)) ∧
    ∀ f, ofConfig config = .ok f → ∀ p : Path, p.Descends →
      (∃ dir ∈ Config.defaultExcludedDirs, .name dir ∈ p.components.dropLast) →
        f.accepts p = false := by
  constructor
  · intro hincludes hexcludes
    obtain ⟨globs, hread⟩ :=
      (exists_mapM_glob_iff Config.defaultExcludes).mpr Config.defaultExcludes_readable
    have hf : ofConfig config = .ok ⟨none, globs⟩ := by
      unfold ofConfig
      rw [hincludes, hexcludes, hdefaults, if_pos rfl, List.nil_append, hread]
      rfl
    refine ⟨_, hf, fun p hp => ?_, fun d hd => ?_⟩
    · have hmatches := anyMatches_iff hf hdefaults hexcludes (slash_notMem_steps hp)
      rw [accepts_of_no_includes rfl, Bool.not_eq_false']
      simp only [name_mem_dropLast_iff hp]
      exact hmatches
    · simp only [name_mem_iff hd]
      exact prunes_iff hf hdefaults hexcludes hd
  · rintro f hf p hp ⟨dir, hdir, hmem⟩
    rw [name_mem_dropLast_iff hp] at hmem
    exact accepts_of_excluded
      (anyMatches_of_mem hf hdefaults (slash_notMem_steps hp) hdir hmem)

/-- A file below `target` is refused, one below `my_target` or called `target` is not. -/
theorem default_excludes_iff_target : ∃ f, ofConfig {} = .ok f ∧
    f.accepts ⟨"a/target/b.rs"⟩ = false ∧ f.accepts ⟨"my_target/target"⟩ = true ∧
    f.prunes ⟨"my_target/target"⟩ = true := by
  obtain ⟨f, hf, haccepts, hprunes⟩ := (@default_excludes_iff {} rfl).1 rfl rfl
  have hfile : (⟨"a/target/b.rs"⟩ : Path).components =
      [.name "a", .name "target", .name "b.rs"] := by
    decide +kernel
  have hlast : (⟨"my_target/target"⟩ : Path).components = [.name "my_target", .name "target"] := by
    decide +kernel
  have hdescends {p : Path} (names : List String) (h : p.components = names.map .name) :
      p.Descends := by
    intro c hc
    rw [h] at hc
    obtain ⟨s, -, rfl⟩ := List.mem_map.mp hc
    exact ⟨s, rfl⟩
  have htarget : "target" ∈ Config.defaultExcludedDirs := by decide
  refine ⟨f, hf, ?_, ?_, ?_⟩
  · refine (haccepts _ (hdescends ["a", "target", "b.rs"] hfile)).mpr ⟨_, htarget, ?_⟩
    rw [hfile]
    decide
  · rw [← Bool.not_eq_false, haccepts _ (hdescends ["my_target", "target"] hlast), hlast]
    decide
  · refine (hprunes _ (hdescends ["my_target", "target"] hlast)).mpr ⟨_, htarget, ?_⟩
    rw [hlast]
    decide

end CodeAtlas.FileFilter
