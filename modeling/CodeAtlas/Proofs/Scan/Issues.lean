import CodeAtlas.Proofs.Scan.Selection
/-!
What a scan notes in its issues: obstacles on its way and files that are too large, all of them
warnings (`isInformational_of_mem_issues`).
-/
namespace CodeAtlas

theorem FileError.isInformational_toEvent (error : FileError) :
    error.toEvent.kind.isInformational = false := by
  cases error <;> rfl

namespace Selection

variable {s : Selection} {path : Path} {e : RunEvent}

theorem isInformational_of_mem_ofFile {source : Syntax.Source}
    (h : e ∈ (s.ofFile path source).filterMap Finding.issue?) : e.kind.isInformational = false := by
  rw [issues_ofFile] at h
  split at h
  · obtain rfl := List.mem_singleton.mp h
    exact FileError.isInformational_toEvent _
  · cases h

mutual

/-- What a scan reports of an entry is no mere information. -/
theorem isInformational_of_mem_findings {path : Path} : ∀ sight : Sight,
    e ∈ (s.findings path sight).filterMap Finding.issue? → e.kind.isInformational = false
  | .file source, h => isInformational_of_mem_ofFile h
  | .dir entries, h => by
    rw [findings] at h
    split at h
    · cases h
    · exact isInformational_of_mem_findingsIn entries h
  | .obstacle message, h => by
    rw [findings] at h
    obtain rfl := List.mem_singleton.mp h
    rfl
  | .hidden, h => by
    rw [findings] at h
    cases h

theorem isInformational_of_mem_findingsIn {path : Path} : ∀ entries : List (String × Sight),
    e ∈ (s.findingsIn path entries).filterMap Finding.issue? → e.kind.isInformational = false
  | [], h => by
    rw [findingsIn] at h
    cases h
  | (name, sight) :: rest, h => by
    rw [findingsIn, List.filterMap_append, List.mem_append] at h
    rcases h with h | h
    · exact isInformational_of_mem_findings sight h
    · exact isInformational_of_mem_findingsIn rest h

end

end Selection

/-- A scan that comes to an end has walked through the directory and kept what it noted there. -/
theorem exists_findings_of_scan {tree : FileTree} {root : Path} {config : Config}
    {s : ProjectStructure} (h : scan tree root config = .ok s) :
    ∃ selection sight,
      s = .ofFindings root (Selection.findings selection ⟨""⟩ sight) := by
  unfold scan at h
  cases hselection : Selection.ofConfig config with
  | error failure =>
    rw [hselection] at h
    cases h
  | ok selection =>
    simp only [hselection, bind, Except.bind] at h
    split at h
    · cases h
    · split at h
      · exact ⟨selection, _, (Except.ok.inj h).symm⟩
      · cases h

theorem isInformational_of_mem_issues {tree : FileTree} {root : Path} {config : Config}
    {s : ProjectStructure} (hscan : scan tree root config = .ok s) {e : RunEvent}
    (h : e ∈ s.issues) : e.kind.isInformational = false := by
  obtain ⟨selection, sight, rfl⟩ := exists_findings_of_scan hscan
  exact Selection.isInformational_of_mem_findings sight h

end CodeAtlas
