import CodeAtlas.Analysis
/-!
What becomes of one file. A file is too large, out of reach, or read; what is read goes to the
plugin of its language or, for want of one, to the text plugin, which also takes over where the
plugin fails.
-/
namespace CodeAtlas

/-- The text plugin reads every file, and says that it has done so. -/
theorem Plugin.exists_text_run (depth : Depth) (file : SourceFile) (source : Syntax.Source) :
    ∃ facts, text.run depth none file source = .ok facts ∧ facts.isFallback = true ∧
      facts.isPartial = true ∧ facts.error = none := by
  cases depth with
  | shallow => exact ⟨_, rfl, rfl, rfl, rfl⟩
  | full => exact ⟨_, rfl, rfl, rfl, rfl⟩

namespace Analyzer

variable {a : Analyzer} {file : SourceFile}

theorem process_of_too_large (h : a.config.maxFileSize < file.size) :
    a.process file = giveUp file (.tooLarge file.path file.size a.config.maxFileSize) :=
  if_pos h

theorem process_of_unreadable (hsize : ¬ a.config.maxFileSize < file.size) {reason : String}
    (h : a.contents file = .error reason) :
    a.process file = giveUp file (.unreadable file.path reason) := by
  unfold process
  rw [if_neg hsize, h]

theorem process_of_contents (hsize : ¬ a.config.maxFileSize < file.size) {source : Syntax.Source}
    (h : a.contents file = .ok source) : a.process file = a.extract file source := by
  unfold process
  rw [if_neg hsize, h]

variable {source : Syntax.Source} {facts : FileFacts} {error : FileError} {p : Plugin}

theorem recover_of_ok (h : Plugin.text.run a.config.depth none file source = .ok facts) :
    a.recover file source error =
      ⟨{ facts with isFallback := true, isPartial := true, error := some error },
        [error.toEvent, fallbackEvent file (file.language.id ++ " plugin failed")]⟩ := by
  unfold recover
  rw [h]

theorem extract_of_missing (hmissing : a.registry.get? file.language = none)
    (h : Plugin.text.run a.config.depth none file source = .ok facts) :
    a.extract file source =
      ⟨facts, [fallbackEvent file ("no plugin for " ++ file.language.id)]⟩ := by
  unfold extract Registry.resolve
  rw [hmissing]
  dsimp only
  rw [h]

theorem extract_of_ok (hget : a.registry.get? file.language = some p)
    (h : p.run a.config.depth a.limitMs file source = .ok facts) :
    a.extract file source = ⟨facts, []⟩ := by
  unfold extract Registry.resolve
  rw [hget]
  dsimp only
  rw [h]

theorem extract_of_error (hget : a.registry.get? file.language = some p)
    (h : p.run a.config.depth a.limitMs file source = .error error) :
    a.extract file source = a.recover file source error := by
  unfold extract Registry.resolve
  rw [hget]
  dsimp only
  rw [h]

end Analyzer

end CodeAtlas
