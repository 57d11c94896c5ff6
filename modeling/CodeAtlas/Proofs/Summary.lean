import CodeAtlas.Proofs.Graph.Hotspots
/-!
Summaries of parts. The summary of two lists of files together follows from their summaries
(`summary_of_parts`): figures are added, maxima compared, and the callables that it lists are among
those that the parts list.
-/
namespace CodeAtlas

theorem foldl_max_append (xs ys : List Nat) :
    (xs ++ ys).foldl max 0 = max (xs.foldl max 0) (ys.foldl max 0) := by
  rw [List.foldl_append, ← @List.foldl_assoc Nat max, Nat.max_zero]

/-- The callables of further files are declared behind those of the first ones. -/
theorem placedHotspots_append (xs ys : List FileFacts) :
    placedHotspots (xs ++ ys) = placedHotspots xs ++
      (placedHotspots ys).map fun p => ((declarations xs).length + p.1, p.2) := by
  have hlength : (xs.flatMap FileFacts.callables).length = (declarations xs).length := by
    rw [← map_fst_callables, List.length_map]
  unfold placedHotspots
  rw [List.flatMap_append, List.zipIdx_append, Nat.zero_add, hlength,
    List.zipIdx_eq_map_add (l := ys.flatMap FileFacts.callables) (i := (declarations xs).length),
    List.filterMap_append, List.filterMap_map, List.map_filterMap]
  congr 1
  refine List.filterMap_congr fun p _ => ?_
  rw [Function.comp_apply, Option.map_map]
  rfl

namespace ComplexitySummary

/-- A callable is ahead of another: it is more complex, or as complex and declared earlier. -/
def Ahead (p q : Nat × Hotspot) : Prop :=
  q.2.complexity < p.2.complexity ∨ p.2.complexity = q.2.complexity ∧ p.1 < q.1

theorem ranks_ranked (hotspots : List Hotspot) :
    Ranks Hotspot.complexity hotspots (ranked hotspots) :=
  ranks_rankedBy hotspots

/-- Every callable is ahead of those that are ranked behind it. -/
theorem ranked_ahead (files : List FileFacts) :
    (rankedBy (fun p => p.2.complexity) (placedHotspots files)).Pairwise Ahead :=
  (ranks_rankedBy _).pairwise (placedHotspots_pairwise files)

theorem listed_ahead (files : List FileFacts) : (listed files).Pairwise Ahead :=
  (ranked_ahead files).sublist (List.take_sublist _ _)

/-- Every listed callable is ahead of those that are not listed. -/
theorem listed_ahead_of_left_out {files : List FileFacts} {p q : Nat × Hotspot}
    (hp : p ∈ placedHotspots files) (hout : p ∉ listed files) (hq : q ∈ listed files) :
    Ahead q p := by
  let ranking := rankedBy (fun p => p.2.complexity) (placedHotspots files)
  have hsplit : (ranking.take hotspotLimit ++ ranking.drop hotspotLimit).Pairwise Ahead := by
    rw [List.take_append_drop]
    exact ranked_ahead files
  have hmem : p ∈ ranking.take hotspotLimit ++ ranking.drop hotspotLimit := by
    rw [List.take_append_drop]
    exact ((ranks_rankedBy _).mem_iff p).mpr hp
  have hrest : p ∈ ranking.drop hotspotLimit := (List.mem_append.mp hmem).resolve_left hout
  exact (List.pairwise_append.mp hsplit).2.2 q hq p hrest

/-- What is listed of the whole is listed of a part. -/
theorem mem_listed_append {xs ys : List FileFacts} {p : Nat × Hotspot}
    (hp : p ∈ listed (xs ++ ys)) :
    p ∈ listed xs ∨ ∃ q ∈ listed ys, p = ((declarations xs).length + q.1, q.2) := by
  let behind (p : Nat × Hotspot) : Nat × Hotspot := ((declarations xs).length + p.1, p.2)
  have hmoved : rankedBy (fun p => p.2.complexity) ((placedHotspots ys).map behind) =
      (rankedBy (fun p => p.2.complexity) (placedHotspots ys)).map behind :=
    (List.map_mergeSort (f := behind) fun _ _ _ _ => rfl).symm
  rw [listed, placedHotspots_append, take_rankedBy_append, hmoved, ← List.map_take] at hp
  have hplaced := ((ranks_rankedBy _).mem_iff p).mp (List.mem_of_mem_take hp)
  rcases List.mem_append.mp hplaced with hp | hp
  · exact .inl hp
  · obtain ⟨q, hq, rfl⟩ := List.mem_map.mp hp
    exact .inr ⟨q, hq, rfl⟩

def combine (a b : ComplexitySummary) : ComplexitySummary where
  files := a.files + b.files
  totalLines := a.totalLines + b.totalLines
  totalCyclomatic := a.totalCyclomatic + b.totalCyclomatic
  maxCyclomatic := max a.maxCyclomatic b.maxCyclomatic
  maxNestingDepth := max a.maxNestingDepth b.maxNestingDepth
  hotspots := (ranked (a.hotspots ++ b.hotspots)).take hotspotLimit
  partialFiles := a.partialFiles + b.partialFiles
  fallbackFiles := a.fallbackFiles + b.fallbackFiles
  erroredFiles := a.erroredFiles + b.erroredFiles

/-- The summary of two runs is the combination of theirs. -/
theorem ofFiles_append (xs ys : List FileFacts) :
    ofFiles (xs ++ ys) = (ofFiles xs).combine (ofFiles ys) := by
  have hhotspots : (ranked ((xs ++ ys).flatMap FileFacts.hotspots)).take hotspotLimit =
      (ranked ((ofFiles xs).hotspots ++ (ofFiles ys).hotspots)).take hotspotLimit := by
    rw [List.flatMap_append]
    exact take_rankedBy_append hotspotLimit _ _
  unfold ofFiles combine
  simp only [List.length_append, total_append, List.map_append, foldl_max_append,
    List.countP_append]
  congr 1

/-- The summary of two lists of files together is made of their summaries: figures are added, maxima
compared, and the most complex callables are the first of those that the parts list, in decreasing
complexity and otherwise in order. So a callable that a part does not list is not listed of the
whole, and of equally complex ones the earlier declared is listed, and listed first. -/
theorem summary_of_parts (xs ys : List FileFacts) :
    ofFiles (xs ++ ys) = (ofFiles xs).combine (ofFiles ys) ∧
    Ranks Hotspot.complexity ((ofFiles xs).hotspots ++ (ofFiles ys).hotspots)
      (ranked ((ofFiles xs).hotspots ++ (ofFiles ys).hotspots)) ∧
    (listed (xs ++ ys)).map Prod.snd = (ofFiles (xs ++ ys)).hotspots ∧
    (∀ p ∈ listed (xs ++ ys), p ∈ listed xs ∨
      ∃ q ∈ listed ys, p = ((declarations xs).length + q.1, q.2)) ∧
    (listed (xs ++ ys)).Pairwise Ahead ∧
    ∀ p ∈ placedHotspots (xs ++ ys), p ∉ listed (xs ++ ys) →
      ∀ q ∈ listed (xs ++ ys), Ahead q p := by
  refine ⟨ofFiles_append xs ys, ranks_ranked _, map_snd_listed _, ?_, listed_ahead _, ?_⟩
  · exact fun p hp => mem_listed_append hp
  · exact fun p hp hout q hq => listed_ahead_of_left_out hp hout hq

end ComplexitySummary

end CodeAtlas
