import CodeAtlas.Outline
import Mathlib.Data.List.TakeWhile
/-!
What reading one line of a text does: a line that is no code changes nothing but whether a comment
is open, and a line of code closes the scopes that it cannot belong to and notes what it declares.
-/
namespace CodeAtlas.Outline

open Text

/-- What a change of one element keeps of it, it keeps of the list. -/
theorem map_modify_of_eq {α β : Type} {f : α → β} {g : α → α} (h : ∀ a, f (g a) = f a) (i : Nat)
    (xs : List α) : (xs.modify i g).map f = xs.map f := by
  refine List.ext_getElem? fun j => ?_
  rw [List.getElem?_map, List.getElem?_modify, List.getElem?_map]
  cases xs[j]? with
  | none => rfl
  | some a =>
    by_cases hj : i = j
    · simp [hj, h]
    · simp [hj]

/-- What is said of a symbol apart from where it is and how it is written. -/
structure Member where
  name : String
  qualifiedName : String
  kind : SymbolKind
  parent : Option String
  complexity : Option UInt32
deriving DecidableEq, Repr

namespace Member

def ofSymbol (s : Symbol) : Member :=
  ⟨s.name, s.qualifiedName, s.kind, s.parent, s.complexity⟩

def inside (parent : Option String) (name : String) (kind : SymbolKind) : Member where
  name
  qualifiedName := match parent with
    | some p => p ++ "." ++ name
    | none => name
  kind
  parent
  complexity := if kind.isCallable then some 1 else none

def sealed (decisions : Nat) (m : Member) : Member :=
  { m with complexity := if m.kind.isCallable then some (complexityOf decisions) else m.complexity }

def sealAll (scopes : List OpenScope) (members : List Member) : List Member :=
  scopes.foldl (fun members scope => members.modify scope.symbol (sealed scope.decisions)) members

theorem sealAll_nil (members : List Member) : sealAll [] members = members := rfl

theorem sealAll_cons (scope : OpenScope) (scopes : List OpenScope) (members : List Member) :
    sealAll (scope :: scopes) members =
      sealAll scopes (members.modify scope.symbol (sealed scope.decisions)) := rfl

theorem length_sealAll (scopes : List OpenScope) (members : List Member) :
    (sealAll scopes members).length = members.length := by
  induction scopes generalizing members with
  | nil => rfl
  | cons scope scopes ih => rw [sealAll_cons, ih, List.length_modify]

theorem map_parent_sealAll (scopes : List OpenScope) (members : List Member) :
    (sealAll scopes members).map parent = members.map parent := by
  induction scopes generalizing members with
  | nil => rfl
  | cons scope scopes ih =>
    have hkept : ∀ m, (sealed scope.decisions m).parent = m.parent := fun _ => rfl
    rw [sealAll_cons, ih, map_modify_of_eq hkept]

/-- A qualified name is not the one of the scope around it. -/
theorem qualifiedName_ne (parent : Option String) (name : String) (kind : SymbolKind) :
    parent ≠ some (inside parent name kind).qualifiedName := by
  intro heq
  cases parent with
  | none => cases heq
  | some p =>
    have hlength := congrArg String.length (Option.some.inj heq)
    simp only [inside, String.length_append] at hlength
    have hdot : ".".length = 1 := rfl
    omega

end Member

def OpenScope.past (line : List Char) (s : OpenScope) : OpenScope :=
  { s with decisions := s.decisions + decisionsOf (trim line) }

def members (o : Outline) : List Member :=
  o.symbols.map .ofSymbol

namespace Reader

def opensComment? (file : SourceFile) (line : List Char) : Option (List Char) :=
  if (commentMarks file.language).2 then after? ['/', '*'] (trim line) else none

def isCode (r : Reader) (file : SourceFile) (line : List Char) : Bool :=
  !r.inComment && (opensComment? file line).isNone &&
    !((trim line).isEmpty || isLineComment file.language (trim line))

def declares? (r : Reader) (file : SourceFile) (line : List Char) : Option (String × SymbolKind) :=
  if r.isCode file line && !r.inImports && trim line != "import (".toList &&
      (import? file (trim line)).isNone then
    declaration? line
  else none

def inCommentAfter (r : Reader) (file : SourceFile) (line : List Char) : Bool :=
  if r.inComment then !holds ['*', '/'] (trim line)
  else (opensComment? file line).any fun rest => !holds ['*', '/'] rest

def inImportsAfter (r : Reader) (line : List Char) : Bool :=
  if r.inImports then (trim line).head? != some ')' else trim line = "import (".toList

variable {r : Reader} {file : SourceFile} {number : Nat} {line : List Char}

theorem read_of_isCode (h : r.isCode file line = true) :
    r.read file number line =
      (r.advance number line (trim line)).record file number line (trim line) := by
  simp only [isCode, Bool.and_eq_true, Bool.not_eq_true', Option.isNone_iff_eq_none] at h
  obtain ⟨⟨hcomment, hblock⟩, hline⟩ := h
  unfold opensComment? at hblock
  unfold read
  simp only [hcomment, hblock, hline, Bool.false_eq_true, if_false]

/-- A line without code changes nothing but whether a comment is open. -/
theorem read_of_not_isCode (h : r.isCode file line = false) :
    r.read file number line = { r with inComment := r.inCommentAfter file line } := by
  unfold read inCommentAfter
  by_cases hcomment : r.inComment = true
  · rw [if_pos hcomment, if_pos hcomment]
  · rw [Bool.not_eq_true] at hcomment
    unfold isCode at h
    cases hblock : opensComment? file line with
    | some rest =>
      rw [opensComment?] at hblock
      simp only [hcomment, hblock, Bool.false_eq_true, if_false, Option.any_some]
    | none =>
      rw [hcomment, hblock] at h
      simp only [Option.isNone_none, Bool.not_false, Bool.true_and, Bool.not_eq_false'] at h
      rw [opensComment?] at hblock
      simp only [hcomment, hblock, h, Bool.false_eq_true, if_false, if_true, Option.any_none]
      rw [← hcomment]

/-! ### The open scopes and the symbols -/

/-- The scopes that a line ends are the innermost ones up to its indentation. -/
theorem closeFrom_eq (indent last : Nat) (scopes : List OpenScope) (symbols : List Symbol) :
    closeFrom indent last scopes symbols =
      (scopes.dropWhile fun s => indent ≤ s.indent,
        closeAll last (scopes.takeWhile fun s => indent ≤ s.indent) symbols) := by
  induction scopes generalizing symbols with
  | nil => rfl
  | cons scope scopes ih =>
    rw [closeFrom, List.dropWhile_cons, List.takeWhile_cons]
    by_cases h : indent ≤ scope.indent
    · rw [if_pos h, if_pos (decide_eq_true h), if_pos (decide_eq_true h), ih]
      rfl
    · rw [if_neg h, if_neg (by simpa using h), if_neg (by simpa using h)]
      rfl

def members (r : Reader) : List Member :=
  r.found.members

def kept (r : Reader) (line : List Char) : List OpenScope :=
  (r.scopes.dropWhile fun s => indentOf line ≤ s.indent).map (OpenScope.past line)

def ended (r : Reader) (line : List Char) : List OpenScope :=
  r.scopes.takeWhile fun s => indentOf line ≤ s.indent

/-- Closing scopes seals their members. -/
theorem map_ofSymbol_closeAll (last : Nat) (scopes : List OpenScope) (symbols : List Symbol) :
    (closeAll last scopes symbols).map .ofSymbol =
      Member.sealAll scopes (symbols.map .ofSymbol) := by
  induction scopes generalizing symbols with
  | nil => rfl
  | cons scope scopes ih =>
    have hmodify : (symbols.modify scope.symbol (closed scope last)).map Member.ofSymbol =
        (symbols.map .ofSymbol).modify scope.symbol (Member.sealed scope.decisions) := by
      refine List.ext_getElem? fun i => ?_
      rw [List.getElem?_map, List.getElem?_modify, List.getElem?_modify, List.getElem?_map]
      cases symbols[i]? with
      | none => rfl
      | some s =>
        by_cases hi : scope.symbol = i
        · simp only [hi, if_true]
          rfl
        · simp only [hi, if_false]
          rfl
    rw [closeAll, List.foldl_cons, ← closeAll, ih, hmodify]
    rfl

theorem advance_scopes (number : Nat) :
    (r.advance number line (trim line)).scopes = r.kept line := by
  simp only [advance, closeFrom_eq]
  rfl

theorem advance_symbols (number : Nat) :
    (r.advance number line (trim line)).found.symbols =
      closeAll (if closers.contains (trim line) then number else number - 1) (r.ended line)
        r.found.symbols := by
  simp only [advance, closeFrom_eq, ended]

theorem advance_members (number : Nat) : (r.advance number line (trim line)).members =
    Member.sealAll (r.ended line) r.members := by
  simp only [members, Outline.members, advance, closeFrom_eq, ended]
  exact map_ofSymbol_closeAll _ _ _

/-! ### Lines of code -/

theorem declares?_eq_some_iff {d : String × SymbolKind} : r.declares? file line = some d ↔
    r.isCode file line = true ∧ r.inImports = false ∧ trim line ≠ "import (".toList ∧
      (import? file (trim line) = none) ∧ declaration? line = some d := by
  rw [declares?, Option.ite_none_right_eq_some]
  simp only [Bool.and_eq_true, Bool.not_eq_true', bne_iff_ne, ne_eq, Option.isNone_iff_eq_none,
    and_assoc]

theorem record_of_declares {name : String} {kind : SymbolKind}
    (h : r.declares? file line = some (name, kind)) :
    r.record file number line (trim line) =
      r.addSymbol file number (indentOf line) (decisionsOf (trim line)) (trim line) name kind := by
  obtain ⟨-, himports, hblock, hnone, hdeclaration⟩ := declares?_eq_some_iff.mp h
  simp only [record, himports, hblock, hnone, hdeclaration, Bool.false_eq_true, if_false]

/-- A line of code that declares nothing can add an import or begin or end a block of them. -/
theorem record_of_declares_none (number : Nat) (hcode : r.isCode file line = true)
    (h : r.declares? file line = none) : ∃ imports,
      r.record file number line (trim line) =
        { r with found := { r.found with imports }, inImports := r.inImportsAfter line } := by
  cases himports : r.inImports with
  | true =>
    rw [record, inImportsAfter, if_pos himports, if_pos himports]
    by_cases hclose : ((trim line).head? == some ')') = true
    · rw [if_pos hclose, bne, hclose]
      exact ⟨_, rfl⟩
    · have hafter : ((trim line).head? != some ')') = r.inImports := by
        rw [himports, bne, Bool.not_eq_true _ |>.mp hclose, Bool.not_false]
      rw [if_neg hclose, hafter]
      split <;> exact ⟨_, rfl⟩
  | false =>
    have hnot : ¬ r.inImports = true := by rw [himports]; simp
    rw [record, if_neg hnot]
    by_cases hblock : trim line = "import (".toList
    · rw [if_pos hblock, inImportsAfter, if_neg hnot, decide_eq_true hblock]
      exact ⟨_, rfl⟩
    · have hafter : r.inImportsAfter line = r.inImports := by
        rw [inImportsAfter, if_neg hnot, himports, decide_eq_false hblock]
      rw [if_neg hblock, hafter]
      cases hnone : import? file (trim line) with
      | some target => exact ⟨_, rfl⟩
      | none =>
        have hdeclaration : declaration? line = none := by
          rw [Option.eq_none_iff_forall_ne_some] at h ⊢
          exact fun d hd => h d (declares?_eq_some_iff.mpr ⟨hcode, himports, hblock, hnone, hd⟩)
        rw [hdeclaration]
        exact ⟨_, rfl⟩

def scopesAfter (r : Reader) (file : SourceFile) (line : List Char) : List OpenScope :=
  match r.declares? file line with
  | none => r.kept line
  | some (name, kind) =>
    let m := Member.inside ((r.kept line).head?.map OpenScope.qualified) name kind
    if closesItself (trim line) then r.kept line
    else ⟨indentOf line, m.qualifiedName, r.members.length, decisionsOf (trim line)⟩ :: r.kept line

def membersAfter (r : Reader) (file : SourceFile) (line : List Char) : List Member :=
  Member.sealAll (r.ended line) r.members ++
    ((r.declares? file line).map fun (name, kind) =>
      Member.inside ((r.kept line).head?.map OpenScope.qualified) name kind).toList

/-- What a line of code leaves behind. -/
theorem read_code (number : Nat) (h : r.isCode file line = true) :
    (r.read file number line).scopes = r.scopesAfter file line ∧
      (r.read file number line).members = r.membersAfter file line ∧
      (r.read file number line).inComment = r.inComment ∧
      (r.read file number line).inImports = r.inImportsAfter line := by
  -- Ending scopes and counting decision points does not change what the line declares.
  have hadvance : (r.advance number line (trim line)).declares? file line =
      r.declares? file line := rfl
  rw [read_of_isCode h, scopesAfter, membersAfter, ← advance_scopes number,
    ← advance_members number]
  cases hd : r.declares? file line with
  | none =>
    obtain ⟨imports, hrecord⟩ :=
      record_of_declares_none (r := r.advance number line (trim line)) number h (hadvance.trans hd)
    rw [hrecord, Option.map_none, Option.toList_none, List.append_nil]
    exact ⟨rfl, rfl, rfl, rfl⟩
  | some d =>
    obtain ⟨name, kind⟩ := d
    obtain ⟨-, himports, hblock, -⟩ := declares?_eq_some_iff.mp hd
    have hafter : r.inImportsAfter line = r.inImports := by
      rw [inImportsAfter, himports, if_neg (by simp), decide_eq_false hblock]
    have hlength : r.members.length =
        (r.advance number line (trim line)).found.symbols.length := by
      rw [← Member.length_sealAll (r.ended line), ← advance_members number]
      exact List.length_map _
    rw [record_of_declares (hadvance.trans hd), hafter, hlength]
    refine ⟨rfl, ?_, rfl, rfl⟩
    exact List.map_append

theorem mem_ended {s : OpenScope} (h : s ∈ r.ended line) : s ∈ r.scopes :=
  (List.takeWhile_sublist _).subset h

/-- The scopes that stay open at a line are those of before, with more decision points. -/
theorem mem_kept {s : OpenScope} (h : s ∈ r.kept line) :
    ∃ s' ∈ r.scopes, s'.symbol = s.symbol ∧ s'.qualified = s.qualified ∧ s'.indent = s.indent := by
  obtain ⟨s', hs', rfl⟩ := List.mem_map.mp h
  exact ⟨s', (List.dropWhile_sublist _).subset hs', rfl, rfl, rfl⟩

/-- A scope that is open after a line was kept by it or is the one it opens. -/
theorem mem_scopesAfter {s : OpenScope} (h : s ∈ r.scopesAfter file line) :
    s ∈ r.kept line ∨ (r.declares? file line ≠ none ∧ s.symbol = r.members.length) := by
  unfold scopesAfter at h
  split at h
  · exact .inl h
  · rename_i hd
    split at h
    · exact .inl h
    · rcases List.mem_cons.mp h with rfl | h
      · exact .inr ⟨by simp [hd], rfl⟩
      · exact .inl h

/-- A line adds parents at the end and changes none. -/
theorem map_parent_read (number : Nat) :
    r.members.map Member.parent <+: (r.read file number line).members.map Member.parent := by
  cases hcode : r.isCode file line with
  | false =>
    rw [read_of_not_isCode hcode]
    exact List.prefix_rfl
  | true =>
    obtain ⟨-, hmembers, -⟩ := read_code number hcode
    rw [hmembers, membersAfter, List.map_append, Member.map_parent_sealAll]
    exact List.prefix_append _ _

/-- Every open scope belongs to a member. -/
theorem symbol_lt_of_mem_scopes {lines : List (List Char)}
    (hr : ∀ s ∈ r.scopes, s.symbol < r.members.length) :
    ∀ s ∈ (readAll file r number lines).scopes,
      s.symbol < (readAll file r number lines).members.length := by
  induction lines generalizing r number with
  | nil => exact hr
  | cons line lines ih =>
    refine ih ?_
    cases hcode : r.isCode file line with
    | false =>
      rw [read_of_not_isCode hcode]
      exact hr
    | true =>
      obtain ⟨hscopes, hmembers, -⟩ := read_code number hcode
      rw [hscopes, hmembers, membersAfter, List.length_append, Member.length_sealAll]
      intro s hs
      rcases mem_scopesAfter hs with hs | ⟨hd, hs⟩
      · obtain ⟨s', hs', hsymbol, -⟩ := mem_kept hs
        have hlt := hr s' hs'
        omega
      · obtain ⟨d, hd⟩ := Option.ne_none_iff_exists'.mp hd
        rw [hd, Option.map_some, Option.toList_some, List.length_singleton]
        omega

theorem trim_ne_nil_of_isCode (h : r.isCode file line = true) : trim line ≠ [] := by
  intro hnil
  simp [isCode, hnil] at h

theorem closesItself_eq_false (h : '\x7d' ∉ line) : closesItself line = false := by
  rw [closesItself, List.count_eq_zero.mpr h, Bool.and_eq_false_iff]
  rcases Nat.eq_zero_or_pos (line.count '\x7b') with hzero | hpos
  · exact .inl (by simp [hzero])
  · exact .inr (by simpa using hpos.ne')

/-- What a declaration leaves behind whose line does not close its body. -/
theorem read_declaration {name : String} {kind : SymbolKind}
    (h : r.declares? file line = some (name, kind)) (hopen : closesItself (trim line) = false)
    {m : Member} (hm : m = .inside ((r.kept line).head?.map OpenScope.qualified) name kind)
    (number : Nat) :
    (r.read file number line).scopes =
        ⟨indentOf line, m.qualifiedName, r.members.length, decisionsOf (trim line)⟩ ::
          r.kept line ∧
      (r.read file number line).members = Member.sealAll (r.ended line) r.members ++ [m] ∧
      (r.read file number line).inComment = false ∧
      (r.read file number line).inImports = false := by
  obtain ⟨hcode, himports, hblock, -⟩ := declares?_eq_some_iff.mp h
  obtain ⟨hscopes, hmembers, hcomment', himports'⟩ := read_code number hcode
  have hcomment : r.inComment = false := by
    simp only [isCode, Bool.and_eq_true, Bool.not_eq_true'] at hcode
    exact hcode.1.1
  refine ⟨?_, ?_, hcomment'.trans hcomment, ?_⟩
  · rw [hscopes, scopesAfter, h, hm]
    simp only [hopen, Bool.false_eq_true, if_false]
  · rw [hmembers, membersAfter, h, hm]
    rfl
  · rw [himports', inImportsAfter, himports, if_neg (by simp), decide_eq_false hblock]

/-- A line that is indented further than the innermost scope ends none. -/
theorem scopes_of_head?_lt {indent : Nat} {scopes : List OpenScope}
    (h : ∀ s ∈ scopes.head?, s.indent < indent) :
    scopes.takeWhile (fun s => indent ≤ s.indent) = [] ∧
      scopes.dropWhile (fun s => indent ≤ s.indent) = scopes := by
  cases scopes with
  | nil => exact ⟨rfl, rfl⟩
  | cons s scopes =>
    have hfalse : decide (indent ≤ s.indent) = false :=
      decide_eq_false (Nat.not_le.mpr (h s rfl))
    rw [List.takeWhile_cons, List.dropWhile_cons, hfalse]
    exact ⟨rfl, rfl⟩

/-- The scopes around a declaration are indented less. -/
theorem indent_lt_of_mem_head?_kept {s : OpenScope} (h : s ∈ (r.kept line).head?) :
    s.indent < indentOf line := by
  rw [kept, List.head?_map] at h
  obtain ⟨s', hs', rfl⟩ := Option.map_eq_some_iff.mp h
  have hhead := List.head?_dropWhile_not (fun s : OpenScope => decide (indentOf line ≤ s.indent))
    r.scopes
  rw [hs'] at hhead
  have hfalse : decide (indentOf line ≤ s'.indent) = false := hhead
  exact Nat.not_le.mp (decide_eq_false_iff_not.mp hfalse)

/-! ### The rest of a text -/

theorem readAll_append (r : Reader) (number : Nat) (pre post : List (List Char)) :
    readAll file r number (pre ++ post) =
      readAll file (readAll file r number pre) (number + pre.length) post := by
  induction pre generalizing r number with
  | nil => rfl
  | cons line pre ih =>
    rw [List.cons_append, readAll, ih, readAll, List.length_cons, Nat.add_assoc,
      Nat.add_comm 1]

/-- The members of a text of which some lines are left. -/
def finish (file : SourceFile) (r : Reader) (number : Nat) (lines : List (List Char)) :
    List Member :=
  Member.sealAll (readAll file r number lines).scopes (readAll file r number lines).members

theorem finish_cons (file : SourceFile) (r : Reader) (number : Nat) (line : List Char)
    (lines : List (List Char)) : finish file r number (line :: lines) =
      finish file (r.read file number line) (number + 1) lines := rfl

theorem members_ofLines (lines : List (List Char)) :
    (ofLines file lines).members = finish file start 1 lines :=
  map_ofSymbol_closeAll _ _ _

theorem finish_append (r : Reader) (number : Nat) (pre post : List (List Char)) :
    finish file r number (pre ++ post) =
      finish file (readAll file r number pre) (number + pre.length) post := by
  rw [finish, readAll_append, finish]

theorem members_ofBytes {bytes : ByteArray} (h : isBinary bytes = false) :
    (ofBytes file bytes).members =
      finish file .start 1 (Text.lines (Utf8.lossy bytes).toList) := by
  rw [ofBytes, if_neg (by simp [h]), members_ofLines]

/-- The parents of members never change. -/
theorem map_parent_finish (file : SourceFile) (r : Reader) (number : Nat)
    (lines : List (List Char)) :
    r.members.map Member.parent <+: (finish file r number lines).map Member.parent := by
  induction lines generalizing r number with
  | nil =>
    have hparents := Member.map_parent_sealAll r.scopes r.members
    exact ⟨[], by rw [List.append_nil, finish, readAll, hparents]⟩
  | cons line lines ih => exact (map_parent_read number).trans (ih _ _)

/-- A member keeps its place and its parent to the end. -/
theorem getElem?_map_parent_finish {r : Reader} {before : List Member} {m : Member}
    (h : r.members = before ++ [m]) (file : SourceFile) (number : Nat)
    (lines : List (List Char)) :
    ((finish file r number lines).map Member.parent)[before.length]? = some m.parent := by
  obtain ⟨more, hmore⟩ := map_parent_finish file r number lines
  have hlength : before.length = (before.map Member.parent).length := (List.length_map _).symm
  rw [← hmore, h, List.map_append, List.append_assoc, hlength, List.getElem?_append_right le_rfl,
    Nat.sub_self]
  rfl

end Reader

end CodeAtlas.Outline
