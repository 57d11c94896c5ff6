import CodeAtlas.FileFilter
import Mathlib.Tactic.Common
/-!
The patterns of a configuration. Its filter is read from the patterns that validation reads and from
the default ones, which can always be read. So the filter fails exactly if a pattern of the
configuration is malformed, with the failure that validation reports as well
(`validation_agrees_on_patterns`), and a valid configuration has a filter (`ofConfig_of_valid`).
-/
namespace CodeAtlas

theorem Config.glob_eq_ok_iff {pattern : String} {g : Glob} :
    Config.glob pattern = .ok g ↔ Glob.read pattern = .ok g := by
  unfold Config.glob
  cases Glob.read pattern <;> simp

theorem Config.glob_eq_error_iff {pattern : String} {e : Failure} :
    Config.glob pattern = .error e ↔
      ∃ fault, Glob.read pattern = .error fault ∧ e = .config (Glob.complaint pattern fault) := by
  unfold Config.glob
  cases Glob.read pattern <;> simp [eq_comm]

/-- The first of some patterns that cannot be read, and what is wrong with it. -/
structure FirstMalformed (patterns : List String) (pattern : String) (fault : Glob.Fault) :
    Prop where
  malformed : Glob.read pattern = .error fault
  first : ∃ before after, patterns = before ++ pattern :: after ∧
    ∀ earlier ∈ before, ∃ g, Glob.read earlier = .ok g

section FirstMalformed

variable {first pattern : String} {rest : List String} {fault : Glob.Fault}

theorem FirstMalformed.head (h : Glob.read first = .error fault) :
    FirstMalformed (first :: rest) first fault :=
  ⟨h, [], rest, rfl, fun _ h => absurd h List.not_mem_nil⟩

/-- A malformed pattern at the front is the first one. -/
theorem firstMalformed_of_error {fault' : Glob.Fault} (h : Glob.read first = .error fault)
    (hfirst : FirstMalformed (first :: rest) pattern fault') :
    pattern = first ∧ fault' = fault := by
  obtain ⟨hread, before, after, hsplit, hbefore⟩ := hfirst
  cases before with
  | nil =>
    obtain ⟨rfl, -⟩ := List.cons.inj hsplit
    rw [h] at hread
    exact ⟨rfl, (Except.error.inj hread).symm⟩
  | cons b before =>
    obtain ⟨rfl, -⟩ := List.cons.inj hsplit
    obtain ⟨g, hg⟩ := hbefore first List.mem_cons_self
    rw [h] at hg
    cases hg

/-- A readable pattern at the front leaves the first malformed one to the others. -/
theorem firstMalformed_of_ok {g : Glob} (h : Glob.read first = .ok g) :
    FirstMalformed (first :: rest) pattern fault ↔ FirstMalformed rest pattern fault := by
  constructor
  · rintro ⟨hread, before, after, hsplit, hbefore⟩
    cases before with
    | nil =>
      obtain ⟨rfl, -⟩ := List.cons.inj hsplit
      rw [h] at hread
      cases hread
    | cons b before =>
      obtain ⟨-, hrest⟩ := List.cons.inj hsplit
      exact ⟨hread, before, after, hrest, (List.forall_mem_cons.mp hbefore).2⟩
  · rintro ⟨hread, before, after, rfl, hbefore⟩
    exact ⟨hread, first :: before, after, rfl, List.forall_mem_cons.mpr ⟨⟨g, h⟩, hbefore⟩⟩

end FirstMalformed

/-- Reading patterns stops at the first that cannot be read. -/
theorem mapM_glob_eq_error_iff {patterns : List String} {e : Failure} :
    patterns.mapM Config.glob = .error e ↔ ∃ pattern fault,
      FirstMalformed patterns pattern fault ∧ e = .config (Glob.complaint pattern fault) := by
  induction patterns with
  | nil =>
    constructor
    · exact nofun
    · rintro ⟨pattern, fault, ⟨-, before, after, hsplit, -⟩, -⟩
      exact absurd hsplit.symm (List.append_ne_nil_of_right_ne_nil _ (List.cons_ne_nil _ _))
  | cons first rest ih =>
    rw [List.mapM_cons]
    cases hread : Glob.read first with
    | error fault =>
      rw [Config.glob_eq_error_iff.mpr ⟨fault, hread, rfl⟩]
      constructor
      · intro h
        exact ⟨first, fault, .head hread, (Except.error.inj h).symm⟩
      · rintro ⟨pattern, fault', hfirst, rfl⟩
        obtain ⟨rfl, rfl⟩ := firstMalformed_of_error hread hfirst
        rfl
    | ok g =>
      simp only [firstMalformed_of_ok hread]
      rw [Config.glob_eq_ok_iff.mpr hread, ← ih]
      cases rest.mapM Config.glob with
      | error e' => exact Iff.rfl
      | ok globs => exact ⟨nofun, nofun⟩

/-- A list of patterns can be read exactly if each of them can. -/
theorem exists_mapM_glob_iff (patterns : List String) :
    (∃ globs, patterns.mapM Config.glob = .ok globs) ↔
      ∀ pattern ∈ patterns, ∃ g, Config.glob pattern = .ok g := by
  induction patterns with
  | nil => exact ⟨fun _ _ h => absurd h List.not_mem_nil, fun _ => ⟨[], rfl⟩⟩
  | cons first rest ih =>
    rw [List.forall_mem_cons, ← ih, List.mapM_cons]
    cases Config.glob first <;> cases rest.mapM Config.glob <;>
      simp [bind, Except.bind, pure, Except.pure]

/-- What is read from a list of patterns is what is read from them one by one. -/
theorem mem_globs_iff {patterns : List String} {globs : List Glob}
    (h : patterns.mapM Config.glob = .ok globs) {g : Glob} :
    g ∈ globs ↔ ∃ pattern ∈ patterns, Config.glob pattern = .ok g := by
  induction patterns generalizing globs with
  | nil =>
    cases h
    simp
  | cons first rest ih =>
    rw [List.mapM_cons] at h
    cases hfirst : Config.glob first with
    | error e =>
      rw [hfirst] at h
      cases h
    | ok g' =>
      cases hrest : rest.mapM Config.glob with
      | error e =>
        rw [hfirst, hrest] at h
        cases h
      | ok others =>
        rw [hfirst, hrest] at h
        cases h
        simp [ih hrest, hfirst, eq_comm]

/-- Every pattern of a valid configuration can be read. -/
theorem Config.valid_patterns {config : Config} {languages : List Language}
    (h : config.validate = .ok languages) :
    ∀ pattern ∈ config.includePatterns ++ config.excludePatterns,
      ∃ g, Config.glob pattern = .ok g := by
  rw [← exists_mapM_glob_iff]
  unfold Config.validate at h
  split at h
  · cases h
  · split at h
    · cases h
    · cases hglobs : (config.includePatterns ++ config.excludePatterns).mapM Config.glob with
      | ok globs => exact ⟨globs, rfl⟩
      | error e =>
        rw [hglobs] at h
        cases h

/-- The default patterns can be read. -/
theorem Config.defaultExcludes_readable :
    ∀ pattern ∈ Config.defaultExcludes, ∃ g, Config.glob pattern = .ok g := by
  have hread : ∀ pattern ∈ Config.defaultExcludes, (Config.glob pattern).isOk = true := by
    decide +kernel
  intro pattern hpattern
  have hok := hread pattern hpattern
  cases h : Config.glob pattern with
  | ok g => exact ⟨g, rfl⟩
  | error e =>
    rw [h] at hok
    cases hok

/-- A filter fails exactly if one of the configured patterns cannot be read, and with the first of
them; the default patterns add no failure. -/
theorem FileFilter.ofConfig_eq_error_iff {config : Config} {e : Failure} :
    FileFilter.ofConfig config = .error e ↔
      (config.includePatterns ++ config.excludePatterns).mapM Config.glob = .error e := by
  obtain ⟨defaults, hdefaults⟩ : ∃ defaults,
      (if config.useDefaultExcludes then Config.defaultExcludes else []).mapM Config.glob =
        .ok defaults := by
    rw [exists_mapM_glob_iff]
    split
    · exact Config.defaultExcludes_readable
    · exact fun _ h => absurd h List.not_mem_nil
  unfold FileFilter.ofConfig
  rw [List.mapM_append, List.mapM_append, hdefaults]
  cases hincludes : config.includePatterns.mapM Config.glob with
  | error e' =>
    have hsome : config.includePatterns.isEmpty = false := by
      rw [List.isEmpty_eq_false_iff]
      intro hnil
      rw [hnil] at hincludes
      cases hincludes
    simp [hsome, bind, Except.bind, Except.map]
  | ok includes =>
    cases config.excludePatterns.mapM Config.glob with
    | error e' => split <;> simp [bind, Except.bind, Except.map]
    | ok excludes => split <;> exact ⟨nofun, nofun⟩

/-- With a size limit and threads, validation fails for whatever pattern fails. -/
theorem Config.validate_of_pattern_error {config : Config} {e : Failure}
    (hsize : 0 < config.maxFileSize) (hthreads : config.threads ≠ some 0)
    (h : (config.includePatterns ++ config.excludePatterns).mapM Config.glob = .error e) :
    config.validate = .error e := by
  unfold Config.validate
  rw [if_neg (Nat.pos_iff_ne_zero.mp hsize), if_neg hthreads, h]
  rfl

/-- A valid configuration has a filter. -/
theorem FileFilter.ofConfig_of_valid {config : Config} {languages : List Language}
    (h : config.validate = .ok languages) : ∃ f, FileFilter.ofConfig config = .ok f := by
  obtain ⟨globs, hread⟩ := (exists_mapM_glob_iff _).mpr (Config.valid_patterns h)
  cases hfilter : FileFilter.ofConfig config with
  | ok f => exact ⟨f, rfl⟩
  | error e =>
    rw [FileFilter.ofConfig_eq_error_iff, hread] at hfilter
    cases hfilter

/-- Validation and the filter agree on the patterns of every configuration. The filter fails exactly
if an including or an excluding pattern is malformed; unless the size limit or the number of threads
is zero, validation then fails with the same failure, which names the first malformed pattern, the
including ones first; and where validation succeeds there is a filter. -/
theorem validation_agrees_on_patterns (config : Config) :
    ((∃ e, FileFilter.ofConfig config = .error e) ↔
      ∃ pattern ∈ config.includePatterns ++ config.excludePatterns, ∃ fault,
        Glob.read pattern = .error fault) ∧
    (∀ e, FileFilter.ofConfig config = .error e → 0 < config.maxFileSize →
      config.threads ≠ some 0 → config.validate = .error e ∧ ∃ pattern fault,
        FirstMalformed (config.includePatterns ++ config.excludePatterns) pattern fault ∧
          e = .config (Glob.complaint pattern fault)) ∧
    ∀ languages, config.validate = .ok languages → ∃ f, FileFilter.ofConfig config = .ok f := by
  refine ⟨?_, ?_, fun languages h => FileFilter.ofConfig_of_valid h⟩
  · simp only [FileFilter.ofConfig_eq_error_iff]
    constructor
    · rintro ⟨e, he⟩
      obtain ⟨pattern, fault, ⟨hread, before, after, hsplit, -⟩, -⟩ := mapM_glob_eq_error_iff.mp he
      refine ⟨pattern, ?_, fault, hread⟩
      rw [hsplit]
      exact List.mem_append_right before List.mem_cons_self
    · rintro ⟨pattern, hpattern, fault, hread⟩
      cases hall : (config.includePatterns ++ config.excludePatterns).mapM Config.glob with
      | error e => exact ⟨e, rfl⟩
      | ok globs =>
        obtain ⟨g, hg⟩ := (exists_mapM_glob_iff _).mp ⟨globs, hall⟩ pattern hpattern
        rw [Config.glob_eq_ok_iff, hread] at hg
        cases hg
  · intro e he hsize hthreads
    rw [FileFilter.ofConfig_eq_error_iff] at he
    exact ⟨Config.validate_of_pattern_error hsize hthreads he, mapM_glob_eq_error_iff.mp he⟩

end CodeAtlas
