import CodeAtlas.Proofs.Graph.Identifiers
import CodeAtlas.Proofs.Graph.Resolution
import Mathlib.Data.List.TakeWhile
/-!
The scope of a use. A call, an inheritance or a composition means the declaration in the innermost
scope around it, where the scope of a declaration is read off the identifier of its node in front of
the first `@`. That is the scope of the name as long as no step of it holds an `@`
(`uses_prefer_inner_scopes`).
-/
namespace CodeAtlas

def beforeMark (name : String) : String :=
  String.ofList (name.toList.takeWhile (· != '@'))

/-- The number of steps of the scope that a name is declared in, all but the last one, if that scope
is the source of a dependency or around it. -/
def declaredDepth (name source : String) : Nat :=
  let scope := (Text.dotParts name).dropLast
  if scope <+: Text.dotParts source then scope.length else 0

/-- A scope is around a name if the name begins with its steps. -/
theorem encloses_iff (scope name : String) :
    encloses scope name = true ↔ Text.dotParts scope <+: Text.dotParts name := by
  have hleft : encloses scope name = true ↔
      name.toList = scope.toList ∨ ∃ rest, name.toList = scope.toList ++ '.' :: rest := by
    unfold encloses
    cases h : Text.after? scope.toList name.toList with
    | none =>
      have hno : ∀ rest, name.toList ≠ scope.toList ++ rest := by
        intro rest hname
        rw [Text.after?_eq_some_iff.mpr hname] at h
        cases h
      simp only [Bool.false_eq_true, false_iff, not_or, not_exists]
      exact ⟨by simpa using hno [], fun rest => hno ('.' :: rest)⟩
    | some rest =>
      have hname := Text.after?_eq_some_iff.mp h
      rw [hname]
      cases rest with
      | nil => simp
      | cons c rest => simp
  rw [hleft]
  constructor
  · rintro (hname | ⟨rest, hname⟩)
    · obtain rfl := String.toList_inj.mp hname
      exact List.prefix_rfl
    · have hofList : name = String.ofList (scope.toList ++ '.' :: rest) := by
        rw [← hname, String.ofList_toList]
      rw [hofList, Text.dotParts_ofList_append, String.ofList_toList]
      exact List.prefix_append _ _
  · rintro ⟨more, hmore⟩
    have hjoin := Text.dotJoin_dotParts name
    rw [← hmore] at hjoin
    by_cases hnil : more = []
    · rw [hnil, List.append_nil, Text.dotJoin_dotParts] at hjoin
      exact .inl (congrArg String.toList hjoin.symm)
    · rw [Text.dotJoin, String.intercalate_append_of_ne_nil (Text.dotParts_ne_nil scope) hnil,
        ← Text.dotJoin, Text.dotJoin_dotParts] at hjoin
      refine .inr ⟨(Text.dotJoin more).toList, ?_⟩
      rw [← hjoin, String.toList_append, String.toList_append, List.append_assoc]
      rfl

/-- The scope of an identifier has the parts in front of the first `@`, without the last one. -/
theorem scopeOfId?_spec (id : String) :
    match scopeOfId? id with
    | none => (Text.dotParts (beforeMark id)).dropLast = []
    | some scope => Text.dotParts scope = (Text.dotParts (beforeMark id)).dropLast := by
  unfold scopeOfId? beforeMark
  dsimp only
  rcases Text.notMem_or_eq_append_last '.' (id.toList.takeWhile (· != '@')) with
    hdot | ⟨front, back, hbase, hback⟩
  · have hnone : (id.toList.takeWhile (· != '@')).reverse.dropWhile (· != '.') = [] := by
      rw [List.dropWhile_eq_nil_iff]
      intro c hc
      rw [bne_iff_ne]
      rintro rfl
      exact hdot (List.mem_reverse.mp hc)
    rw [hnone, Text.dotParts_ofList, Text.fields_of_notMem hdot]
    rfl
  · have hsome : (front ++ '.' :: back).reverse.dropWhile (· != '.') = '.' :: front.reverse := by
      rw [List.reverse_append, List.reverse_cons, List.append_assoc, List.singleton_append,
        List.dropWhile_append_of_pos]
      · rw [List.dropWhile_cons_of_neg (by simp)]
      · intro c hc
        rw [bne_iff_ne]
        rintro rfl
        exact hback (List.mem_reverse.mp hc)
    rw [hbase, hsome]
    dsimp only
    rw [List.reverse_reverse, Text.dotParts_ofList_append, Text.dotParts_ofList back,
      Text.fields_of_notMem hback, List.map_singleton, List.dropLast_concat]

/-- The depth of a node is that of the part of its identifier in front of the first `@`. -/
theorem scopeDepth_eq (n : GraphNode) (source : String) :
    n.scopeDepth source = declaredDepth (beforeMark n.id) source := by
  have hscope := scopeOfId?_spec n.id
  unfold GraphNode.scopeDepth declaredDepth
  cases h : scopeOfId? n.id with
  | none =>
    rw [h] at hscope
    dsimp only at hscope ⊢
    rw [hscope, List.length_nil, ite_self]
  | some scope =>
    rw [h] at hscope
    dsimp only at hscope ⊢
    rw [← hscope]
    simp only [encloses_iff]

/-- Telling a taken name apart does not change what precedes its first `@`. -/
theorem beforeMark_freeId (taken : Std.HashMap String Nat) (name : String) (node : GraphNode) :
    beforeMark (GraphBuilder.freeId taken name node) = beforeMark name := by
  have htail : ∀ tail : List Char, (name.toList ++ '@' :: tail).takeWhile (· != '@') =
      name.toList.takeWhile (· != '@') := by
    intro tail
    rw [List.takeWhile_append]
    split
    · rename_i hall
      rw [List.takeWhile_cons_of_neg (by simp), List.append_nil]
      exact (List.takeWhile_prefix _).eq_of_length hall |>.symm
    · rfl
  cases h : taken.contains name with
  | false => rw [GraphBuilder.freeId_of_free node h]
  | true =>
    obtain ⟨n, hn, -⟩ := GraphBuilder.freeId_of_taken node h
    have hplaced : ∃ tail,
        (GraphBuilder.placedId name node n).toList = name.toList ++ '@' :: tail := by
      unfold GraphBuilder.placedId
      split <;> exact ⟨_, by simp only [String.toList_append, List.append_assoc]; rfl⟩
    obtain ⟨tail, hplaced⟩ := hplaced
    rw [hn, beforeMark, hplaced, htail, beforeMark]

/-- If no step of the scope of a name holds an `@`, the depth is that of the whole name. -/
theorem declaredDepth_beforeMark {name : String}
    (h : ∀ step ∈ (Text.dotParts name).dropLast, '@' ∉ step.toList) (source : String) :
    declaredDepth (beforeMark name) source = declaredDepth name source := by
  have hscope : (Text.dotParts (beforeMark name)).dropLast = (Text.dotParts name).dropLast := by
    have hname : name = String.ofList name.toList := String.ofList_toList.symm
    rcases Text.notMem_or_eq_append_last '.' name.toList with hdot | ⟨front, back, hsplit, hback⟩
    · have hdot' : '.' ∉ name.toList.takeWhile (· != '@') :=
        fun hmem => hdot ((List.takeWhile_prefix _).subset hmem)
      rw [beforeMark, Text.dotParts_ofList, Text.fields_of_notMem hdot', Text.dotParts,
        Text.fields_of_notMem hdot]
      rfl
    · have hback' : '.' ∉ back.takeWhile (· != '@') :=
        fun hmem => hback ((List.takeWhile_prefix _).subset hmem)
      have hparts : Text.dotParts name =
          Text.dotParts (String.ofList front) ++ [String.ofList back] := by
        rw [hname, hsplit, Text.dotParts_ofList_append, Text.dotParts_ofList back,
          Text.fields_of_notMem hback, List.map_singleton]
      rw [hparts, List.dropLast_concat, Text.dotParts_ofList] at h
      -- The scope lies in front of the first `@`, so cutting there only shortens the last step.
      have hfront : ∀ c ∈ front, (c != '@') = true := by
        intro c hc
        rw [bne_iff_ne]
        rintro rfl
        have hdot : '@' ≠ '.' := by decide
        obtain ⟨part, hpart, hmem⟩ := Text.exists_mem_fields hc hdot
        exact h _ (List.mem_map_of_mem hpart) (by rwa [String.toList_ofList])
      have hcut : (front ++ '.' :: back).takeWhile (· != '@') =
          front ++ '.' :: back.takeWhile (· != '@') := by
        rw [List.takeWhile_append_of_pos hfront, List.takeWhile_cons_of_pos (by decide)]
      rw [beforeMark, hsplit, hcut, Text.dotParts_ofList_append,
        Text.dotParts_ofList (back.takeWhile _), Text.fields_of_notMem hback',
        List.map_singleton, List.dropLast_concat, hparts, List.dropLast_concat]
  unfold declaredDepth
  rw [hscope]

/-- What a target that is no import may name: a declaration with the name that is no module. -/
def MayMean (ds : List Declaration) (target : List String) (i : Nat) (r : Resolution)
    (d : Declaration) : Prop :=
  Matches ds target i r ∧ ds[i]? = some d ∧ d.kind ≠ .module

theorem MayMean.isSuffix {ds : List Declaration} {target : List String} {i : Nat} {r : Resolution}
    {d : Declaration} (h : MayMean ds target i r d) : target <:+ Text.dotParts d.name := by
  obtain ⟨⟨d', hd', hfits⟩, hd, -⟩ := h
  obtain rfl : d = d' := Option.some.inj (hd.symm.trans hd')
  rcases hfits with ⟨-, hparts⟩ | ⟨-, front, -, hparts⟩
  · exact hparts ▸ List.suffix_rfl
  · exact ⟨front, hparts.symm⟩

/-- What counts against a declaration as the target of a use, the first before the others: that its
scope is less deep, that it lies in another file, that it is written in another language, and that
only the end of its name fits. -/
def Declaration.distance (d : Declaration) (depth : Nat) (o : Origin) (r : Resolution) :
    ℕᵒᵈ ×ₗ Bool ×ₗ Bool ×ₗ Bool :=
  toLex (OrderDual.toDual depth,
    toLex (!d.file.same o.path, toLex (d.language != o.language, r != .exact)))

theorem Declaration.depth_le_of_distance_le {d d' : Declaration} {depth depth' : Nat} {o : Origin}
    {r r' : Resolution} (h : d.distance depth o r ≤ d'.distance depth' o r') : depth' ≤ depth := by
  rcases (Prod.Lex.toLex_le_toLex.mp h) with hlt | ⟨heq, -⟩
  · exact (OrderDual.toDual_lt_toDual.mp hlt).le
  · exact (OrderDual.toDual_inj.mp heq).ge

/-- A declaration that a use may mean at the least distance, and of those the first inserted. -/
structure Nearest (ds : List Declaration) (o : Origin) (depth : Declaration → Nat)
    (target : List String) (i : Nat) (r : Resolution) : Prop where
  mem : ∃ d, MayMean ds target i r d
  least : ∀ d, ds[i]? = some d → ∀ j r' d', MayMean ds target j r' d' →
    d.distance (depth d) o r ≤ d'.distance (depth d') o r' ∧
      (d.distance (depth d) o r = d'.distance (depth d') o r' → i ≤ j)

/-- Only the depths of declarations that may be meant count. -/
theorem Nearest.congr {ds : List Declaration} {o : Origin} {depth depth' : Declaration → Nat}
    {target : List String} {i : Nat} {r : Resolution} (h : Nearest ds o depth target i r)
    (heq : ∀ j r' d, MayMean ds target j r' d → depth d = depth' d) :
    Nearest ds o depth' target i r := by
  obtain ⟨d, hd⟩ := h.mem
  refine ⟨⟨d, hd⟩, ?_⟩
  intro d₀ hd₀ j r' d' hd'
  obtain rfl : d = d₀ := Option.some.inj (hd.2.1.symm.trans hd₀)
  rw [← heq i r d hd, ← heq j r' d' hd']
  exact h.least d hd₀ j r' d' hd'

def markedDepth (o : Origin) (d : Declaration) : Nat :=
  declaredDepth (beforeMark d.name) o.source

/-- The rank of a declaration for a use is its depth up to the mark, then its faults. -/
theorem use_rank {d : Declaration} {id : String} (hid : beforeMark id = beforeMark d.name)
    (o : Origin) (r : Resolution) : (d.node id).rank false (r == .exact) o =
      ⟨markedDepth o d, Rank.faults (!d.file.same o.path) (d.language != o.language)
        (r != .exact)⟩ := by
  have hdepth : (d.node id).scopeDepth o.source = markedDepth o d := by
    rw [scopeDepth_eq, markedDepth, ← hid]
    rfl
  have hforeign : ((d.node id).language != some o.language) = (d.language != o.language) := rfl
  unfold GraphNode.rank
  rw [hdepth, hforeign]
  rfl

/-- The ranks of uses compare as the distances do. -/
theorem use_rank_le_iff {d d' : Declaration} {id id' : String} {o : Origin} {r r' : Resolution}
    (hid : beforeMark id = beforeMark d.name) (hid' : beforeMark id' = beforeMark d'.name) :
    ((d.node id).rank false (r == .exact) o).key ≤ ((d'.node id').rank false (r' == .exact) o).key ↔
      d.distance (markedDepth o d) o r ≤ d'.distance (markedDepth o d') o r' := by
  rw [use_rank hid, use_rank hid', Rank.key, Rank.key, Declaration.distance, Declaration.distance,
    Prod.Lex.toLex_le_toLex, Prod.Lex.toLex_le_toLex, ← Rank.faults_le_faults_iff]

namespace NodeTable

/-- The identifiers of the nodes of some declarations begin with their names. -/
def Marks (t : NodeTable) (ds : List Declaration) : Prop :=
  ∀ (i : Nat) (d : Declaration), ds[i]? = some d →
    ∃ id, t.nodes[i]? = some (d.node id) ∧ beforeMark id = beforeMark d.name

variable {t : NodeTable} {ds : List Declaration} {o : Origin}

/-- Looking up the target of a use finds the nearest declaration that it may mean. -/
theorem Knows.use_nearest (h : t.Knows ds) (hm : t.Marks ds) {s : String} {c : Candidate}
    (hsome : t.lookup? s false o = some c) :
    Nearest ds o (markedDepth o) (Text.dotParts s) c.position c.resolution := by
  obtain ⟨hc, n, hn, husable, hfirst⟩ := Candidate.pick?_first (h.candidates_pairwise s) hsome
  have hfits := h.mem_candidates.mp hc
  obtain ⟨d, hd⟩ := hfits.getElem?
  obtain ⟨id, hnode, hid⟩ := hm _ d hd
  obtain rfl : n = d.node id := Option.some.inj (hn.symm.trans hnode)
  refine ⟨⟨d, hfits, hd, husable.resolve_left (by simp)⟩, ?_⟩
  intro d₀ hd₀ j r' d' ⟨hfits', hd', hkind'⟩
  obtain rfl : d = d₀ := Option.some.inj (hd.symm.trans hd₀)
  obtain ⟨id', hnode', hid'⟩ := hm _ d' hd'
  obtain ⟨hle, hties⟩ := hfirst ⟨j, r'⟩ (h.mem_candidates.mpr hfits') _ hnode' (.inr hkind')
  refine ⟨(use_rank_le_iff hid hid').mp hle, ?_⟩
  intro heq
  have hexact : (c.resolution != .exact) = (r' != .exact) :=
    congrArg (fun x => (ofLex (ofLex (ofLex x).2).2).2) heq
  exact hties ((use_rank_le_iff hid' hid).mpr heq.ge) (Matches.exact_unique hfits hfits' hexact)

end NodeTable

namespace GraphBuilder

/-- While edges are added the identifiers of the declared nodes begin with their names. -/
theorem Extends.marks {files : List FileFacts} {b : GraphBuilder}
    (h : (declared files).Extends b) : b.table.Marks (declarations files) := by
  obtain ⟨ns, hns, hall⟩ := foldl_declare_nodes
    (R := fun n d => n = d.node n.id ∧ beforeMark n.id = beforeMark d.name)
    (fun taken d => ⟨rfl, beforeMark_freeId taken d.name _⟩) (declarations files) empty
  intro i d hd
  have hi := (List.getElem?_eq_some_iff.mp hd).1
  obtain ⟨n, hn, hnode, hid⟩ := forall₂_getElem? hall hd
  refine ⟨n.id, ?_, hid⟩
  rw [h.getElem?_eq (by rwa [declared_size]), ← hnode, ← Array.getElem?_toList, declared, hns]
  exact hn

/-- The edge of a use ends at the nearest declaration, if there is one that the use may mean. -/
theorem edgeOf_nearest {files : List FileFacts} {b : GraphBuilder}
    (h : (declared files).Extends b) (u : Slot × Dependency) (hk : u.2.kind ≠ .imports)
    (hmean : ∃ i r d, MayMean (declarations files) (Text.dotParts u.2.target) i r d) :
    Nearest (declarations files) (u.1.origin u.2) (markedDepth (u.1.origin u.2))
      (Text.dotParts u.2.target) (b.edgeOf u).target (b.edgeOf u).resolution := by
  have hresolve : b.table.resolve? u.2.target u.2.kind (u.1.origin u.2) =
      b.table.lookup? u.2.target false (u.1.origin u.2) := by
    rw [NodeTable.resolve?, if_neg (by simpa using hk)]
  unfold edgeOf found
  rw [hresolve]
  cases hname : b.table.lookup? u.2.target false (u.1.origin u.2) with
  | some c => exact h.knows.use_nearest h.marks hname
  | none =>
    obtain ⟨i, r, d, hfits, hd, hkind⟩ := hmean
    obtain ⟨id, hnode, -⟩ := h.marks i d hd
    exact absurd (.inr hkind) (Candidate.pick?_eq_none_iff.mp hname ⟨i, r⟩
      (h.knows.mem_candidates.mpr hfits) _ hnode)

end GraphBuilder

theorem edges_nearest (files : List FileFacts) :
    List.Forall₂ (fun e u => u.2.kind ≠ .imports →
        (∃ i r d, MayMean (declarations files) (Text.dotParts u.2.target) i r d) →
        Nearest (declarations files) (u.1.origin u.2) (markedDepth (u.1.origin u.2))
          (Text.dotParts u.2.target) e.target e.resolution)
      (DependencyGraph.ofFiles files).edges.toList (uses files) :=
  forall₂_edges files fun _ hb u _ => GraphBuilder.edgeOf_nearest hb u

/-- Every use that may mean a declaration ends, position by position, at the one in the deepest
scope around the source of the use, where a scope counts as far as it precedes the first `@`; of
those in the same file, then in the same language, then with exactly the name of the target, then
the first inserted. If no scope of a declaration that may be meant holds an `@`, all scopes count in
full. -/
theorem uses_prefer_inner_scopes (files : List FileFacts) :
    List.Forall₂ (fun e u => u.2.kind ≠ .imports →
        (∃ i r d, MayMean (declarations files) (Text.dotParts u.2.target) i r d) →
        Nearest (declarations files) (u.1.origin u.2)
            (fun d => declaredDepth (beforeMark d.name) u.2.source)
            (Text.dotParts u.2.target) e.target e.resolution ∧
          ((∀ i r d, MayMean (declarations files) (Text.dotParts u.2.target) i r d →
              ∀ step ∈ (Text.dotParts d.name).dropLast, '@' ∉ step.toList) →
            Nearest (declarations files) (u.1.origin u.2)
              (fun d => declaredDepth d.name u.2.source)
              (Text.dotParts u.2.target) e.target e.resolution))
      (DependencyGraph.ofFiles files).edges.toList (uses files) := by
  refine (edges_nearest files).imp fun e u hnearest hk hmean => ?_
  have hmarked := hnearest hk hmean
  refine ⟨hmarked, ?_⟩
  intro hplain
  exact hmarked.congr fun i r d hd => declaredDepth_beforeMark (hplain i r d hd) u.2.source

/-- A file below a directory with an `@`: a function, and a class with a method of the same name and
a method that calls it. -/
def markedFile : FileFacts :=
  let symbol (name : String) (kind : SymbolKind) (line : Nat) : Symbol :=
    ⟨name, name, kind, ⟨⟨"@app/x.py"⟩, .ofLines line line⟩, none, none, .everyone, none, none⟩
  { path := ⟨"@app/x.py"⟩
    language := .python
    moduleId := "@app.x"
    symbols := [symbol "f" .function 1, symbol "C" .aggregate 2, symbol "C.f" .function 3,
      symbol "C.g" .function 4]
    dependencies := [⟨"@app.x.C.g", "f", .call, ⟨⟨"@app/x.py"⟩, .ofLines 5 5⟩⟩]
    metrics := .none
    isPartial := false
    isFallback := false
    error := none }

/-- A directory with an `@` hides all scopes in it, so that a method calls a function outside its
class instead of the one inside. -/
theorem inner_scopes_not_preferred : ¬ ∀ files : List FileFacts,
    List.Forall₂ (fun e u => u.2.kind ≠ .imports →
        (∃ i r d, MayMean (declarations files) (Text.dotParts u.2.target) i r d) →
        Nearest (declarations files) (u.1.origin u.2)
          (fun d => declaredDepth d.name u.2.source)
          (Text.dotParts u.2.target) e.target e.resolution)
      (DependencyGraph.ofFiles files).edges.toList (uses files) := by
  intro h
  have hwant := h [markedFile]
  have hhave := edges_nearest [markedFile]
  have huses : uses [markedFile] = [(⟨0, markedFile⟩,
      ⟨"@app.x.C.g", "f", .call, ⟨⟨"@app/x.py"⟩, .ofLines 5 5⟩⟩)] := rfl
  rw [huses] at hwant hhave
  generalize (DependencyGraph.ofFiles [markedFile]).edges.toList = es at hwant hhave
  have hcandidate : ∀ i d, (declarations [markedFile])[i]? = some d → d.kind ≠ .module →
      (∃ front, front ≠ [] ∧ Text.dotParts d.name = front ++ Text.dotParts "f") →
      MayMean (declarations [markedFile]) (Text.dotParts "f") i .suffix d :=
    fun i d hd hkind hend => ⟨⟨d, hd, .inr ⟨rfl, hend⟩⟩, hd, hkind⟩
  have houter := hcandidate 1 _ rfl (by decide)
    ⟨["@app", "x"], by decide, by decide +kernel⟩
  have hinner := hcandidate 3 _ rfl (by decide)
    ⟨["@app", "x", "C"], by decide, by decide +kernel⟩
  cases hwant with
  | cons hnamed _ =>
    cases hhave with
    | cons hmarked _ =>
      have hnamed := hnamed (by decide) ⟨1, _, _, houter⟩
      have hmarked := hmarked (by decide) ⟨1, _, _, houter⟩
      obtain ⟨d, hmean⟩ := hnamed.mem
      have hdepth := Declaration.depth_le_of_distance_le
        (hnamed.least d hmean.2.1 3 .suffix _ hinner).1
      have hmethod : ∀ i < 5, ∀ x ∈ (declarations [markedFile])[i]?,
          Text.dotParts "f" <:+ Text.dotParts x.name → 3 ≤ declaredDepth x.name "@app.x.C.g" →
            i = 3 := by decide +kernel
      have hlt := (List.getElem?_eq_some_iff.mp hmean.2.1).1
      have hthree := hmethod _ hlt d hmean.2.1 hmean.isSuffix hdepth
      rw [hthree] at hmean
      have hsuffix := hmean.1.unique hinner.1
      have htie := (hmarked.least _ (hthree ▸ hinner.2.1) 1 .suffix _ houter).2
      rw [hthree, hsuffix] at htie
      exact absurd (htie (by decide +kernel)) (by decide)

end CodeAtlas
