import CodeAtlas.Graph.Build
import Mathlib.Data.List.Basic
/-!
What the files of a project declare, in the order in which their nodes are inserted. The files of a
project lie in slots, one after the other; building the graph declares all slots first and then adds
the edge of each dependency of each slot (`ofFiles_eq`).
-/
namespace CodeAtlas

/-- What a file declares under a name, before names that are taken are told apart. -/
structure Declaration where
  name : String
  kind : NodeKind
  symbolKind : Option SymbolKind
  file : Path
  language : Language
  line : Nat
deriving DecidableEq, Repr, Inhabited

namespace Declaration

def node (d : Declaration) (id : String) : GraphNode :=
  ⟨id, d.kind, d.symbolKind, some d.file, some d.language, some d.line⟩

def ofModule (f : FileFacts) : Declaration :=
  ⟨f.moduleId, .module, none, f.path, f.language, 1⟩

def ofSymbol (f : FileFacts) (s : Symbol) : Declaration :=
  ⟨s.fullName f.moduleId, .symbol, some s.kind, f.path, f.language, s.line⟩

end Declaration

def FileFacts.declarations (f : FileFacts) : List Declaration :=
  .ofModule f :: f.symbols.map (.ofSymbol f)

def declarations (files : List FileFacts) : List Declaration :=
  files.flatMap FileFacts.declarations

/-- A file with the position of its first node. -/
structure Slot where
  start : Nat
  file : FileFacts

namespace Slot

def fill (start : Nat) : List FileFacts → List Slot
  | [] => []
  | f :: rest => ⟨start, f⟩ :: fill (start + f.declarations.length) rest

/-- The position of the first declaration of the slot with a name, or of the module. -/
def source (s : Slot) (name : String) : Nat :=
  s.start + (s.file.declarations.findIdx? fun d => d.name == name).getD 0

def uses (s : Slot) : List (Slot × Dependency) :=
  s.file.dependencies.map (s, ·)

def nodes (s : Slot) : FileNodes :=
  ⟨s.start, (s.file.moduleId, s.start) ::
    s.file.symbols.mapIdx fun i x => (x.fullName s.file.moduleId, s.start + 1 + i)⟩

end Slot

def uses (files : List FileFacts) : List (Slot × Dependency) :=
  (Slot.fill 0 files).flatMap Slot.uses

/-- The slots follow each other without a gap: at the start of each stand its declarations. -/
theorem fill_declarations {start : Nat} {files : List FileFacts} {s : Slot}
    (h : s ∈ Slot.fill start files) :
    start ≤ s.start ∧ s.file.declarations <+: (declarations files).drop (s.start - start) := by
  induction files generalizing start with
  | nil => simp [Slot.fill] at h
  | cons f rest ih =>
    rw [Slot.fill, List.mem_cons] at h
    rcases h with rfl | h
    · exact ⟨Nat.le_refl _, by simp [declarations]⟩
    · obtain ⟨hle, hpre⟩ := ih h
      have hdrop : s.start - start =
          f.declarations.length + (s.start - (start + f.declarations.length)) := by omega
      refine ⟨by omega, ?_⟩
      rw [hdrop, declarations, List.flatMap_cons, ← List.drop_drop, List.drop_left]
      exact hpre

/-- Positions and names in step: looking up a name finds the first index with it. -/
theorem lookup_mapIdx {α : Type} (key : α → String) (name : String) (start : Nat) (xs : List α) :
    (xs.mapIdx fun i x => (key x, start + i)).lookup name =
      (xs.findIdx? fun x => key x == name).map (start + ·) := by
  induction xs generalizing start with
  | nil => rfl
  | cons x xs ih =>
    rw [List.mapIdx_cons, List.lookup_cons, List.findIdx?_cons]
    by_cases hx : name = key x
    · simp [hx]
    · have hshift : (fun i x => (key x, start + (i + 1))) =
          fun i x => (key x, start + 1 + i) := by
        funext i x
        rw [Nat.add_assoc, Nat.add_comm 1 i]
      have hcomp : (fun i => start + 1 + i) = (start + ·) ∘ (· + 1) := by
        funext i
        simp only [Function.comp_apply]
        omega
      rw [if_neg (by simpa using Ne.symm hx), hshift, ih, Option.map_map, ← hcomp]
      simp [beq_false_of_ne hx]

/-- The node that an edge starts at. -/
theorem Slot.lookup_nodes (s : Slot) (name : String) :
    (s.nodes.named.lookup name).getD s.nodes.module = s.source name := by
  rw [Slot.nodes, Slot.source, FileFacts.declarations, List.lookup_cons, lookup_mapIdx,
    List.findIdx?_cons]
  by_cases hm : name = s.file.moduleId
  · simp [hm, Declaration.ofModule]
  · have hm' : ((Declaration.ofModule s.file).name == name) = false := by
      simpa [Declaration.ofModule] using Ne.symm hm
    have hcomp : ((fun d : Declaration => d.name == name) ∘ Declaration.ofSymbol s.file) =
        fun x => x.fullName s.file.moduleId == name := rfl
    rw [hm', beq_false_of_ne hm, List.findIdx?_map, hcomp]
    cases s.file.symbols.findIdx? (fun x => x.fullName s.file.moduleId == name) with
    | none => simp
    | some i => simp [Nat.add_assoc, Nat.add_comm 1]

namespace GraphBuilder

def declare (b : GraphBuilder) (d : Declaration) : GraphBuilder :=
  (b.insert d.name (d.node "")).1

def use (b : GraphBuilder) (u : Slot × Dependency) : GraphBuilder :=
  b.addEdge u.1.file u.1.nodes u.2

theorem declare_size (b : GraphBuilder) (d : Declaration) :
    (b.declare d).table.nodes.size = b.table.nodes.size + 1 := by
  simp [declare, insert]

/-- The symbols of a file are declared one after the other, and each keeps its position. -/
theorem addSymbols_eq (b : GraphBuilder) (f : FileFacts) (symbols : List Symbol) :
    b.addSymbols f symbols =
      ((symbols.map (.ofSymbol f)).foldl declare b,
        symbols.mapIdx fun i s => (s.fullName f.moduleId, b.table.nodes.size + i)) := by
  induction symbols generalizing b with
  | nil => rfl
  | cons s rest ih =>
    have hstep : b.insert (s.fullName f.moduleId) (symbolNode f s) =
        (b.declare (.ofSymbol f s), b.table.nodes.size) := rfl
    have hshift : (fun i (s : Symbol) => (s.fullName f.moduleId, b.table.nodes.size + (i + 1))) =
        fun i s => (s.fullName f.moduleId, b.table.nodes.size + 1 + i) := by
      funext i s
      rw [Nat.add_assoc, Nat.add_comm 1 i]
    rw [addSymbols, hstep]
    dsimp only
    rw [ih, declare_size, List.mapIdx_cons, hshift]
    rfl

theorem addFile_eq (b : GraphBuilder) (f : FileFacts) :
    b.addFile f = (f.declarations.foldl declare b, Slot.nodes ⟨b.table.nodes.size, f⟩) := by
  have hstep : b.insert f.moduleId (moduleNode f) =
      (b.declare (.ofModule f), b.table.nodes.size) := rfl
  rw [addFile, hstep]
  dsimp only
  rw [addSymbols_eq, declare_size]
  rfl

theorem foldl_declare_size (b : GraphBuilder) (ds : List Declaration) :
    (ds.foldl declare b).table.nodes.size = b.table.nodes.size + ds.length := by
  induction ds generalizing b with
  | nil => rfl
  | cons d ds ih =>
    rw [List.foldl_cons, ih, declare_size, List.length_cons]
    omega

/-- Adding files declares all that they declare, and each file gets its slot. -/
theorem addFiles_eq (b : GraphBuilder) (files : List FileFacts) :
    b.addFiles files = ((declarations files).foldl declare b,
      (Slot.fill b.table.nodes.size files).map fun s => (s.file, s.nodes)) := by
  induction files generalizing b with
  | nil => rfl
  | cons f rest ih =>
    have happ : declarations (f :: rest) = f.declarations ++ declarations rest := rfl
    rw [addFiles, addFile_eq]
    dsimp only
    rw [ih, foldl_declare_size, happ, List.foldl_append]
    rfl

theorem addEdges_eq (b : GraphBuilder) (s : Slot) :
    b.addEdges s.file s.nodes = s.uses.foldl use b := by
  rw [addEdges, Slot.uses, List.foldl_map]
  rfl

/-- The graph before any edge. -/
def declared (files : List FileFacts) : GraphBuilder :=
  (declarations files).foldl declare empty

/-- What holds of no nodes and is kept by each declaration holds before any edge. -/
theorem declared_induction {P : GraphBuilder → Prop} (hempty : P empty)
    (hstep : ∀ b d, P b → P (b.declare d)) (files : List FileFacts) : P (declared files) :=
  List.foldlRecOn _ _ hempty fun b hb d _ => hstep b d hb

end GraphBuilder

/-- The graph of a project: all declarations, then the edges of all dependencies. -/
theorem ofFiles_eq (files : List FileFacts) :
    DependencyGraph.ofFiles files =
      ((uses files).foldl GraphBuilder.use (.declared files)).finish := by
  rw [DependencyGraph.ofFiles, GraphBuilder.addFiles_eq]
  dsimp only
  rw [List.foldl_map, uses, List.foldl_flatMap]
  simp only [GraphBuilder.addEdges_eq]
  rfl

end CodeAtlas
