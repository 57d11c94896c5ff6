import CodeAtlas.Proofs.Outline.Patterns
import CodeAtlas.Proofs.Outline.Apart
import CodeAtlas.Proofs.Text.Trim
/-!
Declarations with the opening brace of their body on a line of its own. The brace closes the scope
that it should open, so that nothing of the body belongs to the declaration.
-/
namespace CodeAtlas.Outline

open Text

namespace Reader

variable {file : SourceFile} {line : List Char}

/-- A declaration without braces, and behind it a line with nothing but an opening brace at the
indentation of the declaration. -/
structure OpensBelow (r : Reader) (file : SourceFile) (decl brace : List Char)
    (d : String × SymbolKind) : Prop where
  declares : r.declares? file decl = some d
  noOpen : '\x7b' ∉ decl
  noClose : '\x7d' ∉ decl
  alone : trim brace = ['\x7b']
  indent : indentOf brace = indentOf decl

section

variable {r : Reader} {decl brace pad : List Char} {d : String × SymbolKind}

/-- Filler behind a line of code leaves it one. -/
theorem isCode_of_trim_append {line' ext : List Char} (hext : ∀ c ∈ ext, isFiller c = true)
    (htrim : trim line' = trim line ++ ext) (h : r.isCode file line = true) :
    r.isCode file line' = true := by
  have hne := trim_ne_nil_of_isCode h
  unfold Reader.isCode opensComment? at h ⊢
  simp only [Bool.and_eq_true, Bool.not_eq_true', Option.isNone_iff_eq_none, Bool.or_eq_false_iff,
    List.isEmpty_eq_false_iff] at h ⊢
  obtain ⟨⟨hcomment, hblock⟩, -, hline⟩ := h
  refine ⟨⟨hcomment, ?_⟩, ?_, ?_⟩
  · split at hblock
    · rename_i hmarks
      rw [if_pos hmarks, Option.eq_none_iff_forall_ne_some]
      intro rest hrest
      have hmark : ∀ c ∈ ['/', '*'], isFiller c = false := isFiller_eq_false_of_any (by decide)
      have hbegins : ['/', '*'] <+: trim line ++ ext :=
        ⟨rest, by rw [← htrim, after?_eq_some_iff.mp hrest]⟩
      obtain ⟨rest', hrest'⟩ := (prefix_append_iff hext hmark _).mp hbegins
      rw [after?_eq_some_iff.mpr hrest'.symm] at hblock
      cases hblock
    · rename_i hmarks
      rw [if_neg hmarks]
  · rw [htrim]
    simp [hne]
  · rw [htrim, isLineComment_append hext, hline]

/-- A declaration is read in the same way with its opening brace behind it. -/
theorem OpensBelow.moved (h : OpensBelow r file decl brace d)
    (hpad : ∀ c ∈ pad, isBlank c = true) :
    r.declares? file (decl ++ (pad ++ ['\x7b'])) = some d ∧
      indentOf (decl ++ (pad ++ ['\x7b'])) = indentOf decl ∧
      decisionsOf (trim (decl ++ (pad ++ ['\x7b']))) = decisionsOf (trim decl) ∧
      closesItself (trim (decl ++ (pad ++ ['\x7b']))) = false := by
  obtain ⟨hcode, himports, -, hnone, hdeclaration⟩ := declares?_eq_some_iff.mp h.declares
  have hne := trim_ne_nil_of_isCode hcode
  have hbrace : isBlank '\x7b' = false := by decide
  obtain ⟨gap, hgap, htrim⟩ := trim_append hne hpad hbrace
  have hfiller (blanks : List Char) (hblanks : ∀ c ∈ blanks, isBlank c = true) :
      ∀ c ∈ blanks ++ ['\x7b'], isFiller c = true := by
    intro c hc
    rcases List.mem_append.mp hc with hc | hc
    · rw [isFiller, hblanks c hc, Bool.true_or]
    · rw [List.mem_singleton.mp hc]
      decide
  have hext := hfiller gap hgap
  refine ⟨declares?_eq_some_iff.mpr ⟨?_, himports, ?_, ?_, ?_⟩, ?_, ?_, ?_⟩
  · exact isCode_of_trim_append hext htrim hcode
  · intro hblock
    have hmem : '\x7b' ∈ "import (".toList := by
      rw [← hblock, htrim]
      simp
    revert hmem
    decide
  · rw [htrim, import?_append hext, hnone]
  · exact declaration?_append (hfiller pad hpad) h.noOpen hdeclaration
  · rw [indentOf, takeWhile_isBlank_append hne, indentOf]
  · rw [htrim, decisionsOf_append hext]
  · refine closesItself_eq_false fun hclose => ?_
    have hmem := mem_of_mem_trim hclose
    rw [List.mem_append, List.mem_append, List.mem_singleton] at hmem
    rcases hmem with hmem | hmem | hmem
    · exact h.noClose hmem
    · have hblank := hpad _ hmem
      revert hblank
      decide
    · revert hmem
      decide

/-- A line with nothing but an opening brace is code without a declaration. -/
theorem OpensBelow.brace_read (h : OpensBelow r file decl brace d) {r' : Reader}
    (hcomment : r'.inComment = false) :
    r'.isCode file brace = true ∧ r'.declares? file brace = none ∧
      decisionsOf (trim brace) = 0 := by
  have hfiller : ∀ c ∈ brace, isFiller c = true := by
    obtain ⟨lead, trail, hlead, htrail, heq⟩ := exists_eq_trim brace
    rw [h.alone] at heq
    intro c hc
    rw [heq, List.mem_append, List.mem_append, List.mem_singleton] at hc
    rcases hc with hc | rfl | hc
    · rw [isFiller, hlead c hc, Bool.true_or]
    · decide
    · rw [isFiller, htrail c hc, Bool.true_or]
  refine ⟨?_, ?_, ?_⟩
  · have hblock : opensComment? file brace = none := by
      unfold opensComment?
      rw [h.alone]
      split <;> rfl
    have hline : isLineComment file.language ['\x7b'] = false := by
      cases file.language <;> decide
    rw [Reader.isCode, hcomment, hblock, h.alone, hline]
    rfl
  · rw [Option.eq_none_iff_forall_ne_some]
    intro d' hd
    obtain ⟨-, -, -, -, hdeclaration⟩ := declares?_eq_some_iff.mp hd
    rw [declaration?_filler hfiller] at hdeclaration
    cases hdeclaration
  · exact decisionsOf_filler fun c hc => hfiller c (mem_of_mem_trim hc)

/-- The brace ends the scope that the line before it opened. -/
theorem OpensBelow.read_brace (h : OpensBelow r file decl brace d) {r' : Reader}
    {scope : OpenScope} {outer : List OpenScope} {before : List Member} {m : Member}
    (hcomment : r'.inComment = false) (himports : r'.inImports = false)
    (hscopes : r'.scopes = scope :: outer) (hindent : scope.indent = indentOf decl)
    (houter : ∀ s ∈ outer.head?, s.indent < indentOf decl) (hmembers : r'.members = before ++ [m])
    (hsymbol : scope.symbol = before.length) (number : Nat) :
    (r'.read file number brace).scopes = outer ∧
      (r'.read file number brace).members = before ++ [m.sealed scope.decisions] ∧
      (r'.read file number brace).inComment = false ∧
      (r'.read file number brace).inImports = false := by
  obtain ⟨hcode, hquiet, hnone⟩ := h.brace_read hcomment
  -- At the indentation of the declaration its scope ends, and the scopes around it stay open.
  obtain ⟨hscopes', hmembers', hcomment', himports'⟩ := Reader.read_code number hcode
  have hscope : decide (indentOf decl ≤ scope.indent) = true := decide_eq_true hindent.ge
  obtain ⟨htake, hdrop⟩ := scopes_of_head?_lt houter
  have hpast : OpenScope.past brace = id := by
    funext s
    rw [OpenScope.past, hnone]
    rfl
  have hkept : r'.kept brace = outer := by
    rw [kept, hscopes, h.indent, List.dropWhile_cons, hscope, if_pos rfl, hdrop, hpast, List.map_id]
  have hended : r'.ended brace = [scope] := by
    rw [ended, hscopes, h.indent, List.takeWhile_cons, hscope, if_pos rfl, htake]
  refine ⟨?_, ?_, hcomment'.trans hcomment, ?_⟩
  · rw [hscopes', scopesAfter, hquiet]
    exact hkept
  · rw [hmembers', membersAfter, hquiet, hended, hmembers, Member.sealAll_cons,
      Member.sealAll_nil, hsymbol, Option.map_none, Option.toList_none, List.append_nil,
      Member.modify_append_last]
  · rw [himports', inImportsAfter, himports, h.alone]
    decide

/-- With the opening brace below it the scope of a declaration is over when its body begins. -/
theorem OpensBelow.inside {name : String} {kind : SymbolKind}
    (h : OpensBelow r file decl brace (name, kind)) (hpad : ∀ c ∈ pad, isBlank c = true)
    (hr : ∀ s ∈ r.scopes, s.symbol < r.members.length) (number number' : Nat) {m : Member}
    (hm : m = .inside ((r.kept decl).head?.map OpenScope.qualified) name kind) :
    Inside r.members.length (m.sealed (decisionsOf (trim decl))) m
      ⟨indentOf decl, m.qualifiedName, r.members.length, decisionsOf (trim decl)⟩
      ((r.read file number decl).read file (number + 1) brace)
      (r.read file number' (decl ++ (pad ++ ['\x7b']))) := by
  obtain ⟨hmoved, hindent, hdecisions, hopen⟩ := h.moved hpad
  have hopen' : closesItself (trim decl) = false :=
    closesItself_eq_false fun hclose => h.noClose (mem_of_mem_trim hclose)
  have hkept : r.kept (decl ++ (pad ++ ['\x7b'])) = r.kept decl := by
    have hpast : OpenScope.past (decl ++ (pad ++ ['\x7b'])) = OpenScope.past decl := by
      funext s
      rw [OpenScope.past, hdecisions, OpenScope.past]
    rw [kept, hindent, hpast, kept]
  have hended : r.ended (decl ++ (pad ++ ['\x7b'])) = r.ended decl := by
    rw [ended, hindent, ended]
  have hlength : (Member.sealAll (r.ended decl) r.members).length = r.members.length :=
    Member.length_sealAll _ _
  obtain ⟨hscopes, hmembers, hcomment, himports⟩ := read_declaration h.declares hopen' hm number
  obtain ⟨hscopes', hmembers', hcomment', himports'⟩ :=
    read_declaration hmoved hopen (hkept ▸ hm) number'
  have houter : ∀ s ∈ (r.kept decl).head?, s.indent < indentOf decl :=
    fun s hs => indent_lt_of_mem_head?_kept hs
  -- One reader has gone on to the brace, which sealed the declaration; the other one has its scope
  -- open. All else they have read is the same.
  obtain ⟨hscopes'', hmembers'', hcomment'', himports''⟩ :=
    h.read_brace hcomment himports hscopes rfl houter hmembers hlength.symm (number + 1)
  refine ⟨⟨?_, ?_, ?_, ?_, ?_⟩, ?_, rfl, ?_, ?_⟩
  · rw [hcomment', hcomment'']
  · rw [himports', himports'']
  · rw [hmembers'', ← hlength, List.getElem?_append_right le_rfl, Nat.sub_self]
    rfl
  · rw [hmembers', hended, hmembers'', ← hlength, List.set_append_right _ _ le_rfl, Nat.sub_self]
    rfl
  · intro s hs
    rw [hscopes''] at hs
    obtain ⟨s', hs', hsymbol, -⟩ := mem_kept hs
    have hlt := hr s' hs'
    omega
  · rw [hscopes', hscopes'', hkept, hindent, hdecisions]
  · rw [hscopes'']
    exact houter
  · rw [hscopes'', hm]
    exact Member.qualifiedName_ne _ _ kind

end

/-- The lines of a text with a brace on its own line, and those of the text with the brace behind
the declaration. -/
theorem OpensBelow.finish_eq_iff {r : Reader} {decl brace pad : List Char} {name : String}
    {kind : SymbolKind} (h : OpensBelow r file decl brace (name, kind))
    (hpad : ∀ c ∈ pad, isBlank c = true) (hr : ∀ s ∈ r.scopes, s.symbol < r.members.length)
    (number : Nat) (post : List (List Char)) :
    finish file r number (decl :: brace :: post) =
        finish file r number ((decl ++ (pad ++ ['\x7b'])) :: post) ↔
      (∀ l ∈ body file (indentOf decl) ((r.read file number decl).read file (number + 1) brace)
          (number + 2) post, l.2 = none) ∧
        (kind.isCallable = true →
          complexityOf (decisionsOf (trim decl)) =
            complexityOf (decisionsOf (trim decl) + total (fun l => decisionsOf (trim l.1))
              (body file (indentOf decl) ((r.read file number decl).read file (number + 1) brace)
                (number + 2) post))) := by
  have hinside := h.inside hpad hr number number rfl
  rw [finish_cons, finish_cons, finish_cons, hinside.finish_eq_iff, Member.sealed_sealed_eq_iff]
  rfl

end Reader

variable {file : SourceFile}

/-- The lines of code of the body of a declaration whose opening brace is on the line below it, with
what they declare: those up to the first one that is indented no further than the declaration. -/
def bodyBelow (file : SourceFile) (pre : List (List Char)) (decl brace : List Char)
    (post : List (List Char)) : List (List Char × Option (String × SymbolKind)) :=
  Reader.body file (indentOf decl) (Reader.readAll file .start 1 (pre ++ [decl, brace]))
    (1 + pre.length + 2) post

/-- Moving the opening brace of a body from its own line behind the declaration changes no member of
the text exactly if nothing is declared in the body and the decision points of the body do not
count, because the declaration is no callable or its complexity is the same with them. The brace on
its own line ends the scope of the declaration. -/
theorem own_line_brace_iff {bytes moved : ByteArray} {pre post : List (List Char)}
    {decl brace pad : List Char} {name : String} {kind : SymbolKind}
    (htext : isBinary bytes = false) (htext' : isBinary moved = false)
    (hlines : Text.lines (Utf8.lossy bytes).toList = pre ++ decl :: brace :: post)
    (hmoved : Text.lines (Utf8.lossy moved).toList = pre ++ (decl ++ (pad ++ ['\x7b'])) :: post)
    (hpad : ∀ c ∈ pad, isBlank c = true)
    (h : (Reader.readAll file .start 1 pre).OpensBelow file decl brace (name, kind)) :
    (ofBytes file bytes).members = (ofBytes file moved).members ↔
      (∀ l ∈ bodyBelow file pre decl brace post, l.2 = none) ∧
        (kind.isCallable = true →
          complexityOf (decisionsOf (trim decl)) =
            complexityOf (decisionsOf (trim decl) +
              total (fun l => decisionsOf (trim l.1)) (bodyBelow file pre decl brace post))) := by
  have hr : ∀ s ∈ (Reader.readAll file .start 1 pre).scopes,
      s.symbol < (Reader.readAll file .start 1 pre).members.length :=
    Reader.symbol_lt_of_mem_scopes (by simp [Reader.start])
  have hbody : bodyBelow file pre decl brace post =
      Reader.body file (indentOf decl)
        (((Reader.readAll file .start 1 pre).read file (1 + pre.length) decl).read file
          (1 + pre.length + 1) brace) (1 + pre.length + 2) post := by
    rw [bodyBelow, Reader.readAll_append]
    rfl
  rw [Reader.members_ofBytes htext, Reader.members_ofBytes htext', hlines, hmoved, hbody,
    Reader.finish_append, Reader.finish_append]
  exact h.finish_eq_iff hpad hr _ post

def ownLineText : String :=
  "class A\n\x7b\n    public function f() \x7b\n    \x7d\n\x7d\n"

def sameLineText : String :=
  "class A \x7b\n    public function f() \x7b\n    \x7d\n\x7d\n"

def classBody : List (List Char) :=
  ["    public function f() \x7b".toList, "    \x7d".toList, "\x7d".toList]

def classFile : SourceFile :=
  .ofPath ⟨"a.php"⟩ .php 0

theorem class_opensBelow : (Reader.readAll classFile .start 1 []).OpensBelow classFile
    "class A".toList ['\x7b'] ("A", .aggregate) where
  declares := by decide +kernel
  noOpen := by decide
  noClose := by decide
  alone := by decide
  indent := by decide

theorem own_line_brace_iff_class :
    (ofBytes classFile ownLineText.toUTF8).members =
        (ofBytes classFile sameLineText.toUTF8).members ↔
      (∀ l ∈ bodyBelow classFile [] "class A".toList ['\x7b'] classBody, l.2 = none) ∧
        (SymbolKind.aggregate.isCallable = true →
          complexityOf (decisionsOf (trim "class A".toList)) =
            complexityOf (decisionsOf (trim "class A".toList) +
              total (fun l => decisionsOf (trim l.1))
                (bodyBelow classFile [] "class A".toList ['\x7b'] classBody))) := by
  have hlines : Text.lines (Utf8.lossy ownLineText.toUTF8).toList =
      [] ++ "class A".toList :: ['\x7b'] :: classBody := by decide +kernel
  have hmoved : Text.lines (Utf8.lossy sameLineText.toUTF8).toList =
      [] ++ ("class A".toList ++ ([' '] ++ ['\x7b'])) :: classBody := by decide +kernel
  have hpad : ∀ c ∈ [' '], isBlank c = true := List.forall_mem_singleton.mpr (by decide)
  exact own_line_brace_iff (by decide +kernel) (by decide +kernel) hlines hmoved hpad
    class_opensBelow

/-- With the brace of the class on its own line its method has no parent. -/
theorem own_line_brace_loses_parent :
    (Reader.readAll classFile .start 1 []).OpensBelow classFile "class A".toList ['\x7b']
        ("A", .aggregate) ∧
      Text.lines (Utf8.lossy ownLineText.toUTF8).toList =
        "class A".toList :: ['\x7b'] :: classBody ∧
      Text.lines (Utf8.lossy sameLineText.toUTF8).toList =
        ("class A".toList ++ [' ', '\x7b']) :: classBody ∧
      (ofBytes classFile ownLineText.toUTF8).members.map (fun m => (m.name, m.parent)) =
        [("A", none), ("f", none)] ∧
      (ofBytes classFile sameLineText.toUTF8).members.map (fun m => (m.name, m.parent)) =
        [("A", none), ("f", some "A")] := by
  refine ⟨class_opensBelow, ?_, ?_, ?_, ?_⟩
  all_goals decide +kernel

end CodeAtlas.Outline
