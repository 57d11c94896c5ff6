import CodeAtlas.Proofs.Analysis.Outcome
import CodeAtlas.Proofs.Scan.Issues
/-!
The log of a run and its slots. Whatever becomes of a file, its events tell what its slot is marked
with (`process_tells`); so the counts of the log are those of the slots, and a run that was
cancelled differs from a whole one by the slots that it lacks and one event (`log_balances_slots`).
-/
namespace CodeAtlas

/-- The plugins of a registry leave it to the text plugin to mark a slot as a fallback. -/
def Registry.IsGenuine (r : Registry) : Prop :=
  ∀ l p, r.get? l = some p → ∀ file source reading, p.read file source = .ok reading →
    reading.isFallback = false

theorem exists_of_bind_eq_ok {ε α β : Type} {x : Except ε α} {f : α → Except ε β} {b : β}
    (h : x >>= f = .ok b) : ∃ a, x = .ok a ∧ f a = .ok b := by
  cases x with
  | error e => cases h
  | ok a => exact ⟨a, rfl, h⟩

theorem eq_ok_of_mapError_eq_ok {ε ε' α : Type} {x : Except ε α} {f : ε → ε'} {a : α}
    (h : x.mapError f = .ok a) : x = .ok a := by
  cases x with
  | error e => cases h
  | ok a' => rw [Except.ok.inj h]

/-- The slot that a plugin gives has no error and is marked as the file was read. -/
theorem Plugin.run_ok {p : Plugin} {depth : Depth} {limitMs : Option Nat} {file : SourceFile}
    {source : Syntax.Source} {facts : FileFacts} (h : p.run depth limitMs file source = .ok facts) :
    ∃ reading, p.read file source = .ok reading ∧ facts.isFallback = reading.isFallback ∧
      facts.error = none ∧ facts.path = file.path := by
  unfold run at h
  obtain ⟨reading, hread, h⟩ := exists_of_bind_eq_ok h
  obtain ⟨symbols, -, h⟩ := exists_of_bind_eq_ok h
  refine ⟨reading, eq_ok_of_mapError_eq_ok hread, ?_⟩
  -- Dependencies and time decide whether there is a slot, and not how it is marked.
  dsimp only at h
  split at h
  all_goals
    obtain ⟨dependencies, -, h⟩ := exists_of_bind_eq_ok h
    split at h
    · cases h
    · obtain rfl := Except.ok.inj h
      exact ⟨rfl, rfl, rfl⟩

/-- The events of a file tell what its slot is marked with: its error, and that the text plugin read
the file. -/
structure Outcome.Tells (o : Outcome) (file : SourceFile) : Prop where
  path : o.facts.path = file.path
  events : ∃ message, o.events = (o.facts.error.map FileError.toEvent).toList ++
    if o.facts.isFallback then [Analyzer.fallbackEvent file message] else []
  isPartial : o.facts.isFallback = true ∨ o.facts.error.isSome = true → o.facts.isPartial = true

namespace Analyzer

variable {a : Analyzer} {file : SourceFile}

theorem giveUp_tells (file : SourceFile) (error : FileError) : (giveUp file error).Tells file where
  path := rfl
  events := ⟨"", rfl⟩
  isPartial _ := rfl

theorem recover_tells (source : Syntax.Source) (error : FileError) :
    (a.recover file source error).Tells file := by
  obtain ⟨facts, hrun, -⟩ := Plugin.exists_text_run a.config.depth file source
  obtain ⟨-, -, -, -, hpath⟩ := Plugin.run_ok hrun
  rw [recover_of_ok hrun]
  exact ⟨hpath, ⟨_, rfl⟩, fun _ => rfl⟩

/-- A slot says by its fields which of the ways through a file was taken. -/
theorem extract_tells (hregistry : a.registry.IsGenuine) (source : Syntax.Source) :
    (a.extract file source).Tells file := by
  cases hget : a.registry.get? file.language with
  | none =>
    obtain ⟨facts, hrun, hfallback, hpartial, herror⟩ :=
      Plugin.exists_text_run a.config.depth file source
    obtain ⟨-, -, -, -, hpath⟩ := Plugin.run_ok hrun
    rw [extract_of_missing hget hrun]
    refine ⟨hpath, ⟨"no plugin for " ++ file.language.id, ?_⟩, fun _ => hpartial⟩
    dsimp only
    rw [herror, hfallback]
    rfl
  | some p =>
    cases hrun : p.run a.config.depth a.limitMs file source with
    | error error =>
      rw [extract_of_error hget hrun]
      exact recover_tells source error
    | ok facts =>
      obtain ⟨reading, hread, hfallback, herror, hpath⟩ := Plugin.run_ok hrun
      rw [hregistry _ p hget _ _ _ hread] at hfallback
      rw [extract_of_ok hget hrun]
      refine ⟨hpath, ⟨"", ?_⟩, ?_⟩
      · dsimp only
        rw [herror, hfallback]
        rfl
      · dsimp only
        rw [herror, hfallback]
        rintro (h | h) <;> cases h

/-- Whatever becomes of a file, its events tell what its slot is marked with. -/
theorem process_tells (hregistry : a.registry.IsGenuine) (file : SourceFile) :
    (a.process file).Tells file := by
  by_cases hsize : a.config.maxFileSize < file.size
  · rw [process_of_too_large hsize]
    exact giveUp_tells file _
  cases hcontents : a.contents file with
  | error reason =>
    rw [process_of_unreadable hsize hcontents]
    exact giveUp_tells file _
  | ok source =>
    rw [process_of_contents hsize hcontents]
    exact extract_tells hregistry source

end Analyzer

/-- Counting events of some kinds, where all errors are alike. -/
theorem Outcome.Tells.countP_events {o : Outcome} {file : SourceFile} (h : o.Tells file)
    {p : EventKind → Bool} {warns : Bool} (hp : ∀ error : FileError, p error.toEvent.kind = warns) :
    o.events.countP (fun e => p e.kind) =
      (warns && o.facts.error.isSome).toNat + (p .pluginFallback && o.facts.isFallback).toNat := by
  obtain ⟨message, hevents⟩ := h.events
  have herror : (o.facts.error.map FileError.toEvent).toList.countP (fun e => p e.kind) =
      (warns && o.facts.error.isSome).toNat := by
    cases o.facts.error with
    | none => rw [Option.isSome_none, Bool.and_false]; rfl
    | some error =>
      rw [Option.map_some, Option.toList_some, List.countP_singleton, hp, Option.isSome_some,
        Bool.and_true]
      cases warns <;> rfl
  have hfallback : (if o.facts.isFallback = true then [Analyzer.fallbackEvent file message]
      else []).countP (fun e => p e.kind) = (p .pluginFallback && o.facts.isFallback).toNat := by
    cases o.facts.isFallback with
    | false => rw [Bool.and_false]; rfl
    | true =>
      rw [if_pos rfl, List.countP_singleton, Bool.and_true]
      cases h : p .pluginFallback <;> simp [h, Analyzer.fallbackEvent]
  rw [hevents, List.countP_append, herror, hfallback]

/-- What the elements bring is counted over all of them. -/
theorem countP_flatMap_eq_add {α β : Type} {f : α → List β} {p : β → Bool} {q q' : α → Bool}
    {xs : List α} (h : ∀ x ∈ xs, (f x).countP p = (q x).toNat + (q' x).toNat) :
    (xs.flatMap f).countP p = xs.countP q + xs.countP q' := by
  induction xs with
  | nil => rfl
  | cons x xs ih =>
    rw [List.forall_mem_cons] at h
    have hrest := ih h.2
    have hq : (if q x = true then 1 else 0) = (q x).toNat := by cases q x <;> rfl
    have hq' : (if q' x = true then 1 else 0) = (q' x).toNat := by cases q' x <;> rfl
    rw [List.flatMap_cons, List.countP_append, h.1, hrest, List.countP_cons, List.countP_cons, hq,
      hq']
    omega

namespace Analyzer

variable (a : Analyzer) (cancelled : SourceFile → Bool) (files : List SourceFile)

def analyzed : List SourceFile :=
  files.filter fun f => !cancelled f

def eventsOf (files : List SourceFile) : List RunEvent :=
  files.flatMap fun f => (a.process f).events

/-- A run reads the files one after the other, and each step of the loop adds what it tells. -/
theorem run_eq :
    a.run cancelled files =
      { files := (analyzed cancelled files).map fun f => (a.process f).facts
        log := ⟨if files.countP cancelled = 0 then a.eventsOf (analyzed cancelled files)
          else a.eventsOf (analyzed cancelled files) ++
            [cancelledEvent (files.countP cancelled)]⟩
        incomplete := files.countP cancelled != 0 } := by
  have hdone : (files.map fun f => if cancelled f then none else some (a.process f)).filterMap id =
      (analyzed cancelled files).map a.process := by
    rw [List.filterMap_map, analyzed, ← List.filterMap_eq_map, List.filterMap_filter]
    refine List.filterMap_congr ?_
    intro f _
    rw [Function.comp_apply, id]
    cases cancelled f <;> rfl
  have hskipped : (files.map fun f => if cancelled f then none else some (a.process f)).countP
      Option.isNone = files.countP cancelled := by
    rw [List.countP_map]
    refine List.countP_congr ?_
    intro f _
    rw [Function.comp_apply]
    cases cancelled f <;> simp
  unfold run Run.collect
  dsimp only
  rw [hdone, hskipped, List.map_map, List.flatMap_map]
  rfl

/-- A whole run leaves out nothing. -/
theorem files_run_false :
    (a.run (fun _ => false) files).files = files.map fun f => (a.process f).facts := by
  have hall : analyzed (fun _ => false) files = files :=
    List.filter_eq_self.mpr fun _ _ => rfl
  rw [run_eq, hall]

/-- The log of a run holds the events of its files, and one more if files were left out. -/
theorem log_run :
    (a.run cancelled files).log.entries = a.eventsOf (analyzed cancelled files) ++
      if (a.run cancelled files).incomplete then [cancelledEvent (files.countP cancelled)]
      else [] := by
  rw [run_eq]
  dsimp only
  by_cases hskipped : files.countP cancelled = 0
  · rw [if_pos hskipped, hskipped]
    exact (List.append_nil _).symm
  · rw [if_neg hskipped, if_pos (bne_iff_ne.mpr hskipped)]

theorem incomplete_run_iff :
    (a.run cancelled files).incomplete = true ↔ ∃ f ∈ files, cancelled f = true := by
  rw [run_eq, bne_iff_ne, ← Nat.pos_iff_ne_zero, List.countP_pos_iff]

variable {a}

/-- Counting events of some kinds over a run counts the slots that are marked with them. -/
theorem countP_log (hregistry : a.registry.IsGenuine) {p : EventKind → Bool} {warns : Bool}
    (hp : ∀ error : FileError, p error.toEvent.kind = warns) :
    (a.run cancelled files).log.entries.countP (fun e => p e.kind) =
      (if warns then (a.run cancelled files).files.countP (fun slot => slot.error.isSome) else 0) +
        (if p .pluginFallback then (a.run cancelled files).files.countP FileFacts.isFallback
          else 0) +
        (if p .cancellationRequested && (a.run cancelled files).incomplete then 1 else 0) := by
  have hconst (b : Bool) (q : SourceFile → Bool) (fs : List SourceFile) :
      fs.countP (fun f => b && q f) = if b then fs.countP q else 0 := by
    cases b <;> simp
  have hevents : (a.eventsOf (analyzed cancelled files)).countP (fun e => p e.kind) = _ :=
    countP_flatMap_eq_add fun f _ => (process_tells hregistry f).countP_events hp
  have hlast : (if (a.run cancelled files).incomplete = true then
      [cancelledEvent (files.countP cancelled)] else []).countP (fun e => p e.kind) =
      if p .cancellationRequested && (a.run cancelled files).incomplete then 1 else 0 := by
    cases (a.run cancelled files).incomplete with
    | false => rw [Bool.and_false]; rfl
    | true => rw [if_pos rfl, List.countP_singleton, Bool.and_true]; rfl
  rw [log_run, List.countP_append, hevents, hlast, run_eq, List.countP_map, List.countP_map,
    hconst, hconst]
  rfl

end Analyzer

/-- What a run that left out some files has to do with a whole one. Its slots are those of the files
that it did not leave out, and its log tells how they are marked. -/
structure AnalysisResult.Accounts (result whole : AnalysisResult) (s : ProjectStructure)
    (cancelled : SourceFile → Bool) : Prop where
  slots : List.Forall₂ (fun slot f => slot.path = f.path) whole.files s.files
  files : result.files =
    ((whole.files.zip s.files).filter fun entry => !cancelled entry.2).map Prod.fst
  warnings : result.log.warningCount = s.issues.length + result.complexity.erroredFiles
  fallbacks : (result.log.ofKind .pluginFallback).length = result.complexity.fallbackFiles
  isPartial : ∀ slot ∈ result.files, slot.isFallback = true ∨ slot.error.isSome = true →
    slot.isPartial = true
  incomplete : result.incomplete = true ↔ ∃ f ∈ s.files, cancelled f = true
  cancellations : (result.log.ofKind .cancellationRequested).length =
    if result.incomplete then 1 else 0
  last : result.incomplete = true →
    ∃ e ∈ result.log.entries.getLast?, e.kind = .cancellationRequested

section Balance

variable {a : Analyzer} {cancelled : SourceFile → Bool} {s : ProjectStructure}

/-- The events of one kind that informs are not among the issues of a scan. -/
theorem length_ofKind_analyze {kind : EventKind} (hregistry : a.registry.IsGenuine)
    (hissues : ∀ e ∈ s.issues, e.kind.isInformational = false)
    (hkind : kind.isInformational = true) :
    ((a.analyze cancelled s).log.ofKind kind).length =
      (if kind = .pluginFallback then (a.analyze cancelled s).complexity.fallbackFiles else 0) +
        (if kind = .cancellationRequested ∧ (a.analyze cancelled s).incomplete = true then 1
          else 0) := by
  have hother : ∀ e : RunEvent, e.kind.isInformational = false → (e.kind == kind) = false := by
    intro e he
    apply beq_false_of_ne
    rintro rfl
    rw [he] at hkind
    cases hkind
  have hnone : s.issues.countP (fun e => e.kind == kind) = 0 := by
    apply List.countP_eq_zero.mpr
    intro e he
    rw [hother e (hissues e he)]
    exact Bool.false_ne_true
  have hlog := Analyzer.countP_log cancelled s.files hregistry (p := fun k => k == kind)
    fun error => hother error.toEvent error.isInformational_toEvent
  rw [RunLog.ofKind, ← List.countP_eq_length_filter]
  change (s.issues ++ (a.run cancelled s.files).log.entries).countP _ = _
  rw [List.countP_append, hnone, hlog, if_neg Bool.false_ne_true, Nat.zero_add, Nat.zero_add]
  simp only [Bool.and_eq_true, beq_iff_eq, eq_comm (b := kind)]
  rfl

/-- The warnings of the log are the issues of the scan and the files that failed. -/
theorem warningCount_analyze (hregistry : a.registry.IsGenuine)
    (hissues : ∀ e ∈ s.issues, e.kind.isInformational = false) :
    (a.analyze cancelled s).log.warningCount =
      s.issues.length + (a.analyze cancelled s).complexity.erroredFiles := by
  have hall : s.issues.countP (fun e => !e.kind.isInformational) = s.issues.length := by
    apply List.countP_eq_length.mpr
    intro e he
    rw [hissues e he]
    rfl
  have hlog := Analyzer.countP_log cancelled s.files hregistry
    (p := fun k => !k.isInformational) fun error => by rw [error.isInformational_toEvent]
  change (s.issues ++ (a.run cancelled s.files).log.entries).countP _ = _
  rw [List.countP_append, hall, hlog]
  rfl

/-- Whichever files a run leaves out and whatever befalls the others, each of the others has the
slot that it has in a whole run. The warnings of the log are those of the scan and one for each slot
with an error, and it tells of each slot that the text plugin filled; such slots are partial. The
result is incomplete exactly if a file was left out, and then the log ends with the one event that
says so. -/
theorem log_balances_slots {tree : FileTree} {root : Path} {config : Config}
    (hscan : scan tree root config = .ok s) (hregistry : a.registry.IsGenuine)
    (cancelled : SourceFile → Bool) :
    (a.analyze cancelled s).Accounts (a.analyze (fun _ => false) s) s cancelled := by
  have hissues : ∀ e ∈ s.issues, e.kind.isInformational = false := fun e he =>
    isInformational_of_mem_issues hscan he
  have hslots : (a.analyze (fun _ => false) s).files = s.files.map fun f => (a.process f).facts :=
    Analyzer.files_run_false a s.files
  have hfiles : (a.analyze cancelled s).files =
      (Analyzer.analyzed cancelled s.files).map fun f => (a.process f).facts :=
    congrArg Run.files (Analyzer.run_eq a cancelled s.files)
  constructor
  case slots =>
    rw [hslots, List.forall₂_map_left_iff, List.forall₂_same]
    exact fun f _ => (Analyzer.process_tells hregistry f).path
  case files =>
    -- Each slot of the whole run stands beside its file, by which it is kept or left out.
    have hzip : (s.files.map fun f => (a.process f).facts).zip s.files =
        s.files.map fun f => ((a.process f).facts, f) := by
      have h := List.zip_map' (l := s.files) (f := fun f => (a.process f).facts) (g := id)
      rw [List.map_id] at h
      exact h
    rw [hslots, hfiles, hzip, List.filter_map, List.map_map]
    rfl
  case warnings => exact warningCount_analyze hregistry hissues
  case fallbacks => exact length_ofKind_analyze hregistry hissues rfl
  case isPartial =>
    intro slot hslot
    rw [hfiles] at hslot
    obtain ⟨f, -, rfl⟩ := List.mem_map.mp hslot
    exact (Analyzer.process_tells hregistry f).isPartial
  case incomplete => exact Analyzer.incomplete_run_iff a cancelled s.files
  case cancellations =>
    rw [length_ofKind_analyze hregistry hissues rfl]
    simp
  case last =>
    intro hincomplete
    have hlog := Analyzer.log_run a cancelled s.files
    rw [if_pos (show (a.run cancelled s.files).incomplete = true from hincomplete)] at hlog
    refine ⟨cancelledEvent (s.files.countP cancelled), ?_, rfl⟩
    change _ ∈ (s.issues ++ (a.run cancelled s.files).log.entries).getLast?
    rw [hlog, ← List.append_assoc, List.getLast?_concat]
    exact Option.mem_some_self _

end Balance

/-- Two files of a language that no grammar covers. -/
def twoFiles : List (String × FileTree) :=
  [("a.php", .file (.plain "x".toUTF8)), ("b.php", .file (.plain "y".toUTF8))]

def twoFileSight : Sight :=
  .dir [("a.php", .file (.plain "x".toUTF8)), ("b.php", .file (.plain "y".toUTF8))]

def twoFileProject : ProjectStructure :=
  .ofFiles ⟨"."⟩ [.ofPath ⟨"a.php"⟩ .php 1, .ofPath ⟨"b.php"⟩ .php 1] []

theorem scan_twoFiles :
    scan (.dir twoFiles) ⟨"."⟩ { useDefaultExcludes := false } = .ok twoFileProject := by
  have hroot : (FileTree.dir twoFiles).resolve ⟨"."⟩ = .ok [] := by
    have hsteps : FileTree.rawSteps ⟨"."⟩ = ["."] := rfl
    simp [FileTree.resolve, hsteps, FileTree.locate, FileTree.below?]
  have hselection : Selection.ofConfig { useDefaultExcludes := false } =
      .ok ⟨⟨none, []⟩, [], 1024 * 1024⟩ := rfl
  have hwalk : (FileTree.dir twoFiles).walk false [] ⟨"."⟩ twoFiles = twoFileSight := by
    simp [twoFiles, twoFileSight, FileTree.walk, FileTree.sights, FileTree.sight]
  unfold scan
  rw [hroot, hselection]
  simp only [bind, Except.bind, FileTree.below?, hwalk]
  have hfound : Selection.findings ⟨⟨none, []⟩, [], 1024 * 1024⟩ ⟨""⟩ twoFileSight =
      [.source (.ofPath ⟨"a.php"⟩ .php 1), .source (.ofPath ⟨"b.php"⟩ .php 1)] := by
    rfl
  rw [hfound]
  rfl

def Plugin.broken : Plugin where
  language := .php
  read _ _ := .error (.crashed none)
  symbols _ _ := .ok []
  dependencies _ _ := .ok []
  pause := 0

theorem Registry.broken_isGenuine : (Registry.empty.add Plugin.broken).IsGenuine := by
  intro l p hget file source reading hread
  obtain ⟨before, after, hsplit, -⟩ := List.lookup_eq_some_iff.mp hget
  have hmem : (l, p) ∈ (Registry.empty.add Plugin.broken).entries :=
    hsplit ▸ List.mem_append_right before List.mem_cons_self
  obtain ⟨-, rfl⟩ := Prod.mk.inj (List.mem_singleton.mp hmem)
  cases hread

theorem log_balances_slots_twoFiles :
    scan (.dir twoFiles) ⟨"."⟩ { useDefaultExcludes := false } = .ok twoFileProject ∧
    (Registry.empty.add Plugin.broken).IsGenuine ∧
    (Analyzer.analyze ⟨{}, .add .empty .broken, fun _ => .ok (.plain "x".toUTF8)⟩
      (fun f => f.path == ⟨"a.php"⟩) twoFileProject).Accounts
      (Analyzer.analyze ⟨{}, .add .empty .broken, fun _ => .ok (.plain "x".toUTF8)⟩
        (fun _ => false) twoFileProject) twoFileProject (fun f => f.path == ⟨"a.php"⟩) := by
  refine ⟨scan_twoFiles, Registry.broken_isGenuine, ?_⟩
  exact log_balances_slots (a := ⟨{}, .add .empty .broken, _⟩) scan_twoFiles
    Registry.broken_isGenuine fun f => f.path == ⟨"a.php"⟩

end CodeAtlas
