import CodeAtlas.Proofs.FileFilter.Validity
import CodeAtlas.Proofs.Path.Order
import CodeAtlas.Proofs.Scan.Walk
import CodeAtlas.Scan
/-!
What a scan of a directory tree without links selects. It notes each file that no pruned directory
hides: in its files or, if it is too large, in its issues, provided that the patterns and the
languages want it, and in its manifests by its name alone (`scan_selects`).
-/
namespace CodeAtlas

namespace FileTree

/-- A file at a place below a directory that no pruned directory on the way hides. -/
structure Reaches (f : FileFilter) (entries : List (String × FileTree)) (names : List String)
    (source : Syntax.Source) : Prop where
  file : (dir entries).below? names = some (.file source)
  unpruned : ∀ front, front <+: names → front ≠ names → f.prunes (.ofNames front) = false

/-- The walk from the root meets the files that can be reached. -/
theorem mem_met_root_iff {f : FileFilter} {entries : List (String × FileTree)}
    (h : (dir entries).Plain) {v : List String × Syntax.Source} :
    v ∈ met f [] (dir entries) ↔ Reaches f entries v.1 v.2 := by
  rw [mem_met_iff h]
  constructor
  · rintro ⟨rest, hplace, hfile, hopen⟩
    obtain rfl : v.1 = rest := hplace
    exact ⟨hfile, hopen⟩
  · rintro ⟨hfile, hopen⟩
    exact ⟨v.1, rfl, hfile, hopen⟩

end FileTree

/-- Elements that bring at most their own key bring no more keys together than they have. -/
theorem map_flatMap_sublist {α β κ : Type} {g : α → List β} {key : β → κ} {own : α → κ}
    (h : ∀ a, ((g a).map key).Sublist [own a]) (xs : List α) :
    ((xs.flatMap g).map key).Sublist (xs.map own) := by
  induction xs with
  | nil => exact List.Sublist.refl _
  | cons x xs ih =>
    rw [List.flatMap_cons, List.map_append, List.map_cons, ← List.singleton_append]
    exact (h x).append ih

namespace Selection

variable {s : Selection}

def Chooses (s : Selection) (path : Path) (source : Syntax.Source) : Prop :=
  s.filter.accepts path = true ∧ (s.languages = [] ∨ languageOf path source ∈ s.languages)

instance (path : Path) (source : Syntax.Source) : Decidable (s.Chooses path source) :=
  inferInstanceAs (Decidable (_ ∧ _))

def sourceAt (path : Path) (source : Syntax.Source) : SourceFile :=
  .ofPath path (languageOf path source) source.bytes.size

theorem chooses_iff (path : Path) (source : Syntax.Source) :
    (s.filter.accepts path && s.wants (languageOf path source)) = true ↔ s.Chooses path source := by
  rw [Bool.and_eq_true, wants, Bool.or_eq_true, List.isEmpty_iff, List.contains_iff_mem, Chooses]

/-- What some of the findings at a file are: of its manifest, and of itself if it is chosen. -/
theorem filterMap_ofFile {α : Type} (g : Finding → Option α) (path : Path)
    (source : Syntax.Source) :
    (s.ofFile path source).filterMap g =
      ((path.fileName?.bind Ecosystem.ofFileName?).bind fun e =>
        g (.manifest ⟨path, e⟩)).toList ++
      if s.Chooses path source then
        (g (s.sized path (languageOf path source) source.bytes.size)).toList
      else [] := by
  have hone (found : Finding) : [found].filterMap g = (g found).toList := by
    rw [List.filterMap_cons, List.filterMap_nil]
    cases g found <;> rfl
  have hmanifest : (((path.fileName?.bind Ecosystem.ofFileName?).map fun e =>
      Finding.manifest ⟨path, e⟩).toList).filterMap g =
        ((path.fileName?.bind Ecosystem.ofFileName?).bind fun e =>
          g (.manifest ⟨path, e⟩)).toList := by
    cases path.fileName?.bind Ecosystem.ofFileName? with
    | none => rfl
    | some e => exact hone _
  unfold ofFile
  by_cases h : s.Chooses path source
  · rw [if_pos ((chooses_iff path source).mpr h), if_pos h, List.filterMap_append, hmanifest, hone]
  · rw [if_neg ((chooses_iff path source).not.mpr h), if_neg h, List.append_nil, hmanifest]

/-- Findings that depend on the size of a file are those of the files that are chosen. -/
theorem filterMap_ofFile_sized {α : Type} {g : Finding → Option α} {path : Path}
    {source : Syntax.Source} {c : Prop} [Decidable c] {x : α}
    (hmanifest : ∀ m, g (.manifest m) = none)
    (hsized : g (s.sized path (languageOf path source) source.bytes.size) =
      if c then some x else none) :
    (s.ofFile path source).filterMap g = if s.Chooses path source ∧ c then [x] else [] := by
  simp only [filterMap_ofFile, hmanifest, Option.bind_fun_none, hsized, Option.toList_none,
    List.nil_append]
  by_cases hchosen : s.Chooses path source
  · rw [if_pos hchosen]
    by_cases hc : c
    · rw [if_pos hc, if_pos ⟨hchosen, hc⟩, Option.toList_some]
    · rw [if_neg hc, if_neg fun h => hc h.2, Option.toList_none]
  · rw [if_neg hchosen, if_neg fun h => hchosen h.1]

/-- A file is a source exactly if it is chosen and not too large. -/
theorem sources_ofFile (path : Path) (source : Syntax.Source) :
    (s.ofFile path source).filterMap Finding.source? =
      if s.Chooses path source ∧ source.bytes.size ≤ s.maxFileSize then [sourceAt path source]
      else [] := by
  refine filterMap_ofFile_sized (fun _ => rfl) ?_
  unfold sized
  by_cases hsize : s.maxFileSize < source.bytes.size
  · rw [if_pos hsize, if_neg (Nat.not_le.mpr hsize)]
    rfl
  · rw [if_neg hsize, if_pos (Nat.not_lt.mp hsize)]
    rfl

theorem issues_ofFile (path : Path) (source : Syntax.Source) :
    (s.ofFile path source).filterMap Finding.issue? =
      if s.Chooses path source ∧ s.maxFileSize < source.bytes.size then
        [(FileError.tooLarge path source.bytes.size s.maxFileSize).toEvent]
      else [] := by
  refine filterMap_ofFile_sized (fun _ => rfl) ?_
  unfold sized
  split <;> rfl

theorem manifests_ofFile (path : Path) (source : Syntax.Source) :
    (s.ofFile path source).filterMap Finding.manifest? =
      ((path.fileName?.bind Ecosystem.ofFileName?).map (Manifest.mk path)).toList := by
  have hsized : Finding.manifest? (s.sized path (languageOf path source) source.bytes.size) =
      none := by
    unfold sized
    split <;> rfl
  rw [filterMap_ofFile, hsized, Option.toList_none, ite_self, List.append_nil]
  cases path.fileName?.bind Ecosystem.ofFileName? <;> rfl

/-- A walk notes at a directory tree without links what it notes of the files that it meets. -/
theorem findings_sight {whole : FileTree} {follow : Bool} {links : Nat} {above : List Visited}
    {place : List String} {path : Path} {names : List String} {e : FileTree} (he : e.Plain)
    (hnames : ∀ step ∈ names, StepName step) :
    s.findings (.ofNames names) (whole.sight follow links above place path e) =
      (FileTree.met s.filter names e).flatMap fun v => s.ofFile (.ofNames v.1) v.2 := by
  induction he generalizing above place path names with
  | file source => simp [FileTree.sight, findings, FileTree.met]
  | @dir entries steps distinct below ih =>
    -- The directories above are only looked at for links, so any will do.
    have hentries : ∀ (above : List Visited) (rest : List (String × FileTree)),
        (∀ p ∈ rest, p ∈ entries) →
        s.findingsIn (.ofNames names) (whole.sights follow links above place path rest) =
          (FileTree.metIn s.filter names rest).flatMap fun v => s.ofFile (.ofNames v.1) v.2 := by
      intro above rest
      induction rest with
      | nil => simp [FileTree.sights, findingsIn, FileTree.metIn]
      | cons p rest ihrest =>
        intro hrest
        have hp := hrest p List.mem_cons_self
        have hstep := steps p hp
        have hbelow : ∀ step ∈ names ++ [p.1], StepName step := by
          intro step h
          rcases List.mem_append.mp h with h | h
          · exact hnames step h
          · exact List.mem_singleton.mp h ▸ hstep
        rw [FileTree.sights, findingsIn, Path.join_ofNames hnames hstep, ih p hp hbelow,
          ihrest fun q hq => hrest q (List.mem_cons_of_mem p hq), FileTree.metIn,
          List.flatMap_append]
    rw [FileTree.sight, findings, FileTree.met]
    by_cases hprunes : s.filter.prunes (.ofNames names) = true
    · rw [if_pos hprunes, if_pos hprunes, List.flatMap_nil]
    · rw [if_neg hprunes, if_neg hprunes]
      exact hentries _ entries fun p hp => hp

def noted (s : Selection) (entries : List (String × FileTree)) : List Finding :=
  (FileTree.met s.filter [] (.dir entries)).flatMap fun v => s.ofFile (.ofNames v.1) v.2

section

variable {entries : List (String × FileTree)} (h : (FileTree.dir entries).Plain)
include h

theorem places_nodup : ((FileTree.met s.filter [] (.dir entries)).map fun v =>
    (Path.ofNames v.1).components).Nodup := by
  have hsteps : ∀ v ∈ FileTree.met s.filter [] (.dir entries), ∀ step ∈ v.1, StepName step :=
    fun v hv => FileTree.stepName_of_mem_met h (fun _ hstep => absurd hstep List.not_mem_nil) hv
  have hnodup : ((FileTree.met s.filter [] (.dir entries)).map Prod.fst).Nodup :=
    FileTree.met_nodup h
  rw [List.nodup_iff_pairwise_ne, List.pairwise_map] at hnodup ⊢
  refine hnodup.imp_of_mem fun hv hw hne heq => hne ?_
  exact Path.components_ofNames_injective (hsteps _ hv) (hsteps _ hw) heq

theorem mem_sources_noted {file : SourceFile} :
    file ∈ (s.noted entries).filterMap Finding.source? ↔ ∃ names source,
      FileTree.Reaches s.filter entries names source ∧ s.Chooses (.ofNames names) source ∧
        source.bytes.size ≤ s.maxFileSize ∧ file = sourceAt (.ofNames names) source := by
  simp only [noted, List.filterMap_flatMap, sources_ofFile, List.mem_flatMap,
    List.mem_ite_nil_right, List.mem_singleton, FileTree.mem_met_root_iff h, Prod.exists,
    and_assoc]

theorem sources_noted_nodup :
    (((s.noted entries).filterMap Finding.source?).map fun f => f.path.components).Nodup := by
  rw [noted, List.filterMap_flatMap]
  refine (places_nodup h).sublist (map_flatMap_sublist (fun v => ?_) _)
  rw [sources_ofFile]
  split
  · exact List.Sublist.refl _
  · exact List.nil_sublist _

theorem mem_issues_noted {event : RunEvent} :
    event ∈ (s.noted entries).filterMap Finding.issue? ↔ ∃ names source,
      FileTree.Reaches s.filter entries names source ∧ s.Chooses (.ofNames names) source ∧
        s.maxFileSize < source.bytes.size ∧
        event = (FileError.tooLarge (.ofNames names) source.bytes.size s.maxFileSize).toEvent := by
  simp only [noted, List.filterMap_flatMap, issues_ofFile, List.mem_flatMap,
    List.mem_ite_nil_right, List.mem_singleton, FileTree.mem_met_root_iff h, Prod.exists,
    and_assoc]

/-- No file is reported twice. -/
theorem issues_noted_nodup :
    (((s.noted entries).filterMap Finding.issue?).map fun event =>
      event.file.map Path.components).Nodup := by
  have hplaces : ((FileTree.met s.filter [] (.dir entries)).map fun v =>
      some (Path.ofNames v.1).components).Nodup := by
    have hsome := (places_nodup (s := s) h).map fun _ _ => Option.some.inj
    rwa [List.map_map] at hsome
  rw [noted, List.filterMap_flatMap]
  refine hplaces.sublist (map_flatMap_sublist (fun v => ?_) _)
  rw [issues_ofFile]
  split
  · exact List.Sublist.refl _
  · exact List.nil_sublist _

/-- The manifests are the reachable files with the name of one, chosen or not. -/
theorem mem_manifests_noted {manifest : Manifest} :
    manifest ∈ (s.noted entries).filterMap Finding.manifest? ↔ ∃ names source,
      FileTree.Reaches s.filter entries names source ∧ manifest.path = .ofNames names ∧
        (Path.ofNames names).fileName?.bind Ecosystem.ofFileName? = some manifest.ecosystem := by
  have hmanifest (path : Path) (found : Option Ecosystem) :
      manifest ∈ (found.map (Manifest.mk path)).toList ↔
        manifest.path = path ∧ found = some manifest.ecosystem := by
    cases found with
    | none => simp
    | some e =>
      rw [Option.map_some, Option.toList_some, List.mem_singleton, Option.some.injEq]
      constructor
      · rintro rfl
        exact ⟨rfl, rfl⟩
      · rintro ⟨rfl, rfl⟩
        rfl
  simp only [noted, List.filterMap_flatMap, manifests_ofFile, List.mem_flatMap, hmanifest,
    FileTree.mem_met_root_iff h, Prod.exists]

theorem manifests_noted_nodup :
    (((s.noted entries).filterMap Finding.manifest?).map fun m => m.path.components).Nodup := by
  rw [noted, List.filterMap_flatMap]
  refine (places_nodup h).sublist (map_flatMap_sublist (fun v => ?_) _)
  rw [manifests_ofFile]
  cases (Path.ofNames v.1).fileName?.bind Ecosystem.ofFileName? with
  | none => exact List.nil_sublist _
  | some e => exact List.Sublist.refl _

/-- No file is both selected and too large. -/
theorem issues_noted_disjoint {event : RunEvent} {file : SourceFile}
    (hevent : event ∈ (s.noted entries).filterMap Finding.issue?)
    (hfile : file ∈ (s.noted entries).filterMap Finding.source?) :
    event.file ≠ some file.path := by
  obtain ⟨names, source, hreaches, -, hsize, rfl⟩ := (mem_issues_noted h).mp hevent
  obtain ⟨names', source', hreaches', -, hsize', rfl⟩ := (mem_sources_noted h).mp hfile
  intro heq
  have hpath : (Path.ofNames names).components = (Path.ofNames names').components :=
    congrArg Path.components (Option.some.inj heq)
  have hmem := (FileTree.mem_met_root_iff h (v := (names, source))).mpr hreaches
  have hmem' := (FileTree.mem_met_root_iff h (v := (names', source'))).mpr hreaches'
  have hv := List.inj_on_of_nodup_map (places_nodup h) hmem hmem' hpath
  obtain rfl : source = source' := congrArg Prod.snd hv
  exact absurd hsize (Nat.not_lt.mpr hsize')

end

/-- What the result of a scan holds: the files that are selected, in the order of their paths, the
issues of those that are only too large, and the manifests. -/
structure Selects (s : Selection) (entries : List (String × FileTree))
    (result : ProjectStructure) : Prop where
  files : ∀ file, file ∈ result.files ↔ ∃ names source,
    FileTree.Reaches s.filter entries names source ∧ s.Chooses (.ofNames names) source ∧
      source.bytes.size ≤ s.maxFileSize ∧ file = sourceAt (.ofNames names) source
  files_sorted : result.files.Pairwise fun a b => a.path.compare b.path = .lt
  issues : ∀ event, event ∈ result.issues ↔ ∃ names source,
    FileTree.Reaches s.filter entries names source ∧ s.Chooses (.ofNames names) source ∧
      s.maxFileSize < source.bytes.size ∧ event = ⟨.fileSkipped, some (.ofNames names),
        (FileError.tooLarge (.ofNames names) source.bytes.size s.maxFileSize).message⟩
  issues_nodup : (result.issues.map RunEvent.file).Nodup
  issues_disjoint : ∀ event ∈ result.issues, ∀ file ∈ result.files, event.file ≠ some file.path
  manifests : ∀ manifest, manifest ∈ result.manifests ↔ ∃ names source,
    FileTree.Reaches s.filter entries names source ∧ manifest.path = .ofNames names ∧
      (Path.ofNames names).fileName?.bind Ecosystem.ofFileName? = some manifest.ecosystem
  manifests_sorted : result.manifests.Pairwise fun a b => a.path.compare b.path = .lt

/-- What is noted over a plain tree is the selection. -/
theorem selects_noted (root : Path) {entries : List (String × FileTree)}
    (h : (FileTree.dir entries).Plain) :
    s.Selects entries (.ofFindings root (s.noted entries)) where
  files _ := List.mem_mergeSort.trans (mem_sources_noted h)
  files_sorted := Path.pairwise_lt_mergeSort _ (sources_noted_nodup h)
  issues _ := mem_issues_noted h
  issues_nodup := by
    refine List.Nodup.of_map (Option.map Path.components) ?_
    rw [List.map_map]
    exact issues_noted_nodup h
  issues_disjoint _ hevent _ hfile :=
    issues_noted_disjoint h hevent (List.mem_mergeSort.mp hfile)
  manifests _ := List.mem_mergeSort.trans (mem_manifests_noted h)
  manifests_sorted := Path.pairwise_lt_mergeSort _ (manifests_noted_nodup h)

end Selection

/-- A scan of a directory without links below it succeeds for every valid configuration. Its files
are exactly those that no pruned directory hides, that the patterns and languages want and that are
not too large, each once in the order of paths; those that are only too large are its issues, each
once; its manifests are known by their names alone. -/
theorem scan_selects {tree : FileTree} {root : Path} {config : Config} {languages : List Language}
    {place : List String} {entries : List (String × FileTree)}
    (hconfig : config.validate = .ok languages) (hroot : tree.resolve root = .ok place)
    (hdir : tree.below? place = some (.dir entries)) (hplain : (FileTree.dir entries).Plain) :
    ∃ filter result, FileFilter.ofConfig config = .ok filter ∧
      scan tree root config = .ok result ∧
      Selection.Selects ⟨filter, languages, config.maxFileSize⟩ entries result := by
  obtain ⟨filter, hfilter⟩ := FileFilter.ofConfig_of_valid hconfig
  have hselection : Selection.ofConfig config = .ok ⟨filter, languages, config.maxFileSize⟩ := by
    rw [Selection.ofConfig, hfilter, hconfig]
    rfl
  have hnoted : Selection.findings ⟨filter, languages, config.maxFileSize⟩ (.ofNames [])
      (tree.sight config.followLinks tree.dirCount [] place root (.dir entries)) =
        Selection.noted ⟨filter, languages, config.maxFileSize⟩ entries :=
    Selection.findings_sight hplain fun _ hstep => absurd hstep List.not_mem_nil
  rw [FileTree.sight] at hnoted
  refine ⟨filter, _, hfilter, ?_, Selection.selects_noted root hplain⟩
  unfold scan
  rw [hselection, hroot]
  simp only [bind, Except.bind, hdir]
  exact congrArg (fun found => Except.ok (ProjectStructure.ofFindings root found)) hnoted

/-- A directory with a program, a manifest and a directory that is left out by default. -/
def FileTree.smallProject : List (String × FileTree) :=
  [("node_modules", .dir [("left.py", .file (.plain ⟨#[]⟩))]),
    ("package.json", .file (.plain ⟨#[0x7b, 0x7d]⟩)),
    ("src", .dir [("app.py", .file (.plain ⟨#[0x78]⟩))])]

theorem FileTree.smallProject_plain : (dir smallProject).Plain := by
  have hone (name : String) (h : StepName name) (source : Syntax.Source) :
      Plain (dir [(name, file source)]) := by
    refine .dir ?_ ?_ ?_
    · exact List.forall_mem_singleton.mpr h
    · exact List.nodup_singleton name
    · exact List.forall_mem_singleton.mpr (.file source)
  refine .dir (by decide) (by decide) ?_
  simp only [smallProject, List.forall_mem_cons]
  exact ⟨hone _ (by decide) _, .file _, hone _ (by decide) _, by simp⟩

theorem scan_selects_smallProject : ∃ filter result,
    FileFilter.ofConfig { maxFileSize := 1, languages := ["python"] } = .ok filter ∧
      scan (.dir FileTree.smallProject) ⟨"."⟩ { maxFileSize := 1, languages := ["python"] } =
        .ok result ∧
      Selection.Selects ⟨filter, [.python], 1⟩ FileTree.smallProject result := by
  have hroot : (FileTree.dir FileTree.smallProject).resolve ⟨"."⟩ = .ok [] := by
    have hsteps : FileTree.rawSteps ⟨"."⟩ = ["."] := rfl
    simp [FileTree.resolve, hsteps, FileTree.locate, FileTree.below?]
  exact scan_selects (by rfl) hroot rfl FileTree.smallProject_plain

end CodeAtlas
