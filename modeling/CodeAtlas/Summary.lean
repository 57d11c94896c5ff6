import CodeAtlas.FileFacts
import CodeAtlas.Total
/-!
Complexity over all files of a run, and the callables with the greatest complexity.
-/
namespace CodeAtlas

structure Hotspot where
  id : String
  file : Path
  line : Nat
  complexity : UInt32
deriving DecidableEq, Repr, Inhabited

def hotspotLimit : Nat := 10

def FileFacts.hotspots (f : FileFacts) : List Hotspot :=
  f.symbols.filterMap fun s =>
    s.complexity.map fun c => ⟨s.fullName f.moduleId, f.path, s.line, c⟩

structure ComplexitySummary where
  files : Nat
  totalLines : Nat
  totalCyclomatic : Nat
  maxCyclomatic : Nat
  maxNestingDepth : Nat
  /-- The most complex callables, the first ones of equals first. -/
  hotspots : List Hotspot
  partialFiles : Nat
  fallbackFiles : Nat
  erroredFiles : Nat
deriving DecidableEq, Repr, Inhabited

namespace ComplexitySummary

/-- The callables in decreasing complexity; equals keep their order. -/
def ranked (hotspots : List Hotspot) : List Hotspot :=
  hotspots.mergeSort fun a b => b.complexity ≤ a.complexity

def ofFiles (files : List FileFacts) : ComplexitySummary where
  files := files.length
  totalLines := total (fun f => f.metrics.lines) files
  totalCyclomatic := total (fun f => f.metrics.cyclomatic.toNat) files
  maxCyclomatic := (files.map fun f => f.metrics.cyclomatic.toNat).foldl max 0
  maxNestingDepth := (files.map fun f => f.metrics.nestingDepth).foldl max 0
  hotspots := (ranked (files.flatMap FileFacts.hotspots)).take hotspotLimit
  partialFiles := files.countP FileFacts.isPartial
  fallbackFiles := files.countP FileFacts.isFallback
  erroredFiles := files.countP fun f => f.error.isSome

def meanCyclomatic (s : ComplexitySummary) : Float :=
  if s.files = 0 then 0.0 else s.totalCyclomatic.toFloat / s.files.toFloat

end ComplexitySummary

end CodeAtlas
