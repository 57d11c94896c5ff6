import CodeAtlas.Proofs.Outline.Reading
/-!
Two readers that have read the same text but for one declaration: they agree on everything but what
is said of it, and while only one of them has its scope open, they differ in what it contains.
-/
namespace CodeAtlas.Outline

open Text

namespace Member

variable {k : Nat} {m : Member}

theorem modify_set_of_ne {i : Nat} (h : i ≠ k) (f : Member → Member) (members : List Member) :
    (members.set k m).modify i f = (members.modify i f).set k m := by
  refine List.ext_getElem? fun j => ?_
  rw [List.getElem?_modify, List.getElem?_set, List.getElem?_set, List.getElem?_modify,
    List.length_modify]
  by_cases hj : k = j
  · subst hj
    simp [h]
  · simp [hj]

theorem modify_set_self (f : Member → Member) (members : List Member) :
    (members.set k m).modify k f = members.set k (f m) := by
  refine List.ext_getElem? fun j => ?_
  rw [List.getElem?_modify, List.getElem?_set, List.getElem?_set]
  by_cases hj : k = j
  · simp only [hj, if_true]
    split <;> rfl
  · simp [hj]

theorem modify_append_last (f : Member → Member) (members : List Member) (m : Member) :
    (members ++ [m]).modify members.length f = members ++ [f m] := by
  induction members with
  | nil => rfl
  | cons first members ih =>
    rw [List.cons_append, List.length_cons, List.modify_succ_cons, ih, List.cons_append]

theorem sealAll_set {scopes : List OpenScope} (h : ∀ s ∈ scopes, s.symbol ≠ k)
    (members : List Member) :
    sealAll scopes (members.set k m) = (sealAll scopes members).set k m := by
  induction scopes generalizing members with
  | nil => rfl
  | cons scope scopes ih =>
    rw [sealAll_cons, sealAll_cons, modify_set_of_ne (h scope List.mem_cons_self),
      ih fun s hs => h s (List.mem_cons_of_mem scope hs)]

theorem getElem?_sealAll {scopes : List OpenScope} (h : ∀ s ∈ scopes, s.symbol ≠ k)
    (members : List Member) : (sealAll scopes members)[k]? = members[k]? := by
  induction scopes generalizing members with
  | nil => rfl
  | cons scope scopes ih =>
    rw [sealAll_cons, ih fun s hs => h s (List.mem_cons_of_mem scope hs),
      List.getElem?_modify_ne _ _ (h scope List.mem_cons_self)]

theorem sealed_sealed_eq_iff (m : Member) (d e : Nat) :
    m.sealed d = m.sealed e ↔ (m.kind.isCallable = true → complexityOf d = complexityOf e) := by
  unfold sealed
  by_cases hkind : m.kind.isCallable = true <;> simp [hkind]

/-- Setting a member changes nothing exactly if it was there. -/
theorem set_eq_self_iff {m' : Member} {members : List Member} (h : members[k]? = some m) :
    members = members.set k m' ↔ m = m' := by
  obtain ⟨hlt, rfl⟩ := List.getElem?_eq_some_iff.mp h
  constructor
  · intro heq
    have hk := congrArg (fun ms : List Member => ms[k]?) heq
    simp only [h, List.getElem?_set_self hlt] at hk
    exact Option.some.inj hk
  · rintro rfl
    exact (List.set_getElem_self hlt).symm

end Member

namespace Reader

variable {file : SourceFile}

/-- The lines of code up to the first one that is indented no further, with what they declare. -/
def body (file : SourceFile) (indent : Nat) (r : Reader) (number : Nat) :
    List (List Char) → List (List Char × Option (String × SymbolKind))
  | [] => []
  | line :: rest =>
    if r.isCode file line then
      if indentOf line ≤ indent then []
      else (line, r.declares? file line) ::
        body file indent (r.read file number line) (number + 1) rest
    else body file indent (r.read file number line) (number + 1) rest

/-! ### Readers that differ at one member -/

/-- Two readers that differ in one member, whose scope is not open in the first one. -/
structure Apart (k : Nat) (m m' : Member) (a b : Reader) : Prop where
  inComment : b.inComment = a.inComment
  inImports : b.inImports = a.inImports
  member : a.members[k]? = some m
  members : b.members = a.members.set k m'
  scopes : ∀ s ∈ a.scopes, s.symbol ≠ k

variable {k : Nat} {m m' : Member} {a b : Reader} {line : List Char}

namespace Apart

theorem isCode (h : Apart k m m' a b) : b.isCode file line = a.isCode file line := by
  rw [Reader.isCode, h.inComment, Reader.isCode]

theorem declares? (h : Apart k m m' a b) : b.declares? file line = a.declares? file line := by
  rw [Reader.declares?, h.isCode, h.inImports, Reader.declares?]

/-- A line without code leaves both readers as far apart as they are. -/
theorem read_of_not_isCode (h : Apart k m m' a b) (hcode : a.isCode file line = false)
    (number number' : Nat) :
    Apart k m m' (a.read file number line) (b.read file number' line) := by
  rw [Reader.read_of_not_isCode hcode, Reader.read_of_not_isCode (h.isCode.trans hcode)]
  refine ⟨?_, h.inImports, h.member, h.members, h.scopes⟩
  show b.inCommentAfter file line = a.inCommentAfter file line
  rw [inCommentAfter, h.inComment, inCommentAfter]

/-- A line of code keeps two readers apart if what it makes of their members still differs only
there. -/
theorem read_of_isCode {m'' : Member} (h : Apart k m m' a b) (hcode : a.isCode file line = true)
    (hmembers : b.membersAfter file line = (a.membersAfter file line).set k m'')
    (number number' : Nat) :
    Apart k m m'' (a.read file number line) (b.read file number' line) := by
  obtain ⟨hscopes, hmembersA, hcomment, himports⟩ := Reader.read_code number hcode
  obtain ⟨-, hmembersB, hcomment', himports'⟩ := Reader.read_code number' (h.isCode.trans hcode)
  refine ⟨?_, ?_, ?_, ?_, ?_⟩
  · rw [hcomment', hcomment, h.inComment]
  · rw [himports', himports, inImportsAfter, h.inImports, inImportsAfter]
  · have hlength : (Member.sealAll (a.ended line) a.members).length = a.members.length :=
      Member.length_sealAll _ _
    have hlt := (List.getElem?_eq_some_iff.mp h.member).1
    rw [hmembersA, membersAfter, List.getElem?_append_left (hlength ▸ hlt),
      Member.getElem?_sealAll fun s hs => h.scopes s (mem_ended hs)]
    exact h.member
  · rw [hmembersB, hmembersA, hmembers]
  · intro s hs
    rw [hscopes] at hs
    rcases mem_scopesAfter hs with hs | ⟨-, hs⟩
    · obtain ⟨s', hs', hsymbol, -⟩ := mem_kept hs
      exact hsymbol ▸ h.scopes s' hs'
    · have hlt := (List.getElem?_eq_some_iff.mp h.member).1
      omega

/-- A line of code at which the same scopes stay open keeps two readers apart at one member. -/
theorem read_code {m'' : Member} (h : Apart k m m' a b) (hcode : a.isCode file line = true)
    (hkept : b.kept line = a.kept line)
    (hsealed : Member.sealAll (b.ended line) b.members =
      (Member.sealAll (a.ended line) a.members).set k m'') (number number' : Nat) :
    Apart k m m'' (a.read file number line) (b.read file number' line) ∧
      (b.read file number' line).scopes = (a.read file number line).scopes := by
  have hlength : (Member.sealAll (a.ended line) a.members).length = a.members.length :=
    Member.length_sealAll _ _
  have hlt := (List.getElem?_eq_some_iff.mp h.member).1
  have hmembers : b.membersAfter file line = (a.membersAfter file line).set k m'' := by
    rw [membersAfter, membersAfter, h.declares?, hkept, hsealed,
      List.set_append_left _ _ (hlength ▸ hlt)]
  refine ⟨h.read_of_isCode hcode hmembers number number', ?_⟩
  rw [(Reader.read_code number' (h.isCode.trans hcode)).1, (Reader.read_code number hcode).1,
    scopesAfter, scopesAfter, h.declares?, hkept, h.members, List.length_set]

/-- Readers with the same open scopes stay apart at one member to the end. -/
theorem finish_eq_iff (h : Apart k m m' a b) (hscopes : b.scopes = a.scopes)
    (number number' : Nat) (lines : List (List Char)) :
    finish file a number lines = finish file b number' lines ↔ m = m' := by
  -- Both keep or end the same scopes at each line, so they stay `Apart` with the same scopes open.
  induction lines generalizing a b number number' with
  | nil =>
    unfold finish readAll
    rw [hscopes, h.members, Member.sealAll_set h.scopes]
    exact Member.set_eq_self_iff ((Member.getElem?_sealAll h.scopes _).trans h.member)
  | cons line lines ih =>
    unfold finish readAll
    cases hcode : a.isCode file line with
    | false =>
      refine ih (h.read_of_not_isCode hcode _ _) ?_ _ _
      rw [Reader.read_of_not_isCode hcode, Reader.read_of_not_isCode (h.isCode.trans hcode)]
      exact hscopes
    | true =>
      have hkept : b.kept line = a.kept line := by rw [kept, hscopes, kept]
      have hended : b.ended line = a.ended line := by rw [ended, hscopes, ended]
      obtain ⟨hread, hsame⟩ := h.read_code hcode hkept (by
        rw [hended, h.members, Member.sealAll_set fun s hs => h.scopes s (mem_ended hs)])
        number number'
      exact ih hread hsame _ _

end Apart

/-! ### Inside the body -/

/-- Two readers in the body of a declaration, of which only the second one has its scope open. -/
structure Inside (k : Nat) (m m' : Member) (scope : OpenScope) (a b : Reader) : Prop extends
    Apart k m m' a b where
  isOpen : b.scopes = scope :: a.scopes
  symbol : scope.symbol = k
  outer : ∀ s ∈ a.scopes.head?, s.indent < scope.indent
  named : a.scopes.head?.map OpenScope.qualified ≠ some scope.qualified

namespace Inside

variable {scope : OpenScope}

/-- A line that is indented further than the declaration ends no scope. -/
theorem scopes_of_indent_lt (h : Inside k m m' scope a b) (hindent : scope.indent < indentOf line) :
    a.ended line = [] ∧ b.ended line = [] ∧ a.kept line = a.scopes.map (.past line) ∧
      b.kept line = scope.past line :: a.kept line := by
  have hscope : decide (indentOf line ≤ scope.indent) = false := by simpa using hindent
  have houter := scopes_of_head?_lt fun s hs => (h.outer s hs).trans hindent
  refine ⟨houter.1, ?_, ?_, ?_⟩
  · rw [ended, h.isOpen, List.takeWhile_cons, hscope]
    rfl
  · rw [kept, houter.2]
  · rw [kept, kept, houter.2, h.isOpen, List.dropWhile_cons, hscope]
    rfl

theorem read_of_not_isCode (h : Inside k m m' scope a b) (hcode : a.isCode file line = false)
    (number number' : Nat) :
    Inside k m m' scope (a.read file number line) (b.read file number' line) := by
  refine ⟨h.toApart.read_of_not_isCode hcode number number', ?_, h.symbol, ?_, ?_⟩
  · rw [Reader.read_of_not_isCode hcode, Reader.read_of_not_isCode (h.isCode.trans hcode)]
    exact h.isOpen
  · rw [Reader.read_of_not_isCode hcode]
    exact h.outer
  · rw [Reader.read_of_not_isCode hcode]
    exact h.named

/-- A line in the body that declares nothing leaves the readers in the body. -/
theorem read_of_declares_none (h : Inside k m m' scope a b) (hcode : a.isCode file line = true)
    (hindent : scope.indent < indentOf line) (hd : a.declares? file line = none)
    (number number' : Nat) :
    Inside k m m' (scope.past line) (a.read file number line) (b.read file number' line) := by
  obtain ⟨hended, hended', hkept, hkept'⟩ := h.scopes_of_indent_lt hindent
  have hd' : b.declares? file line = none := h.declares?.trans hd
  have hmembers : b.membersAfter file line = (a.membersAfter file line).set k m' := by
    simp only [membersAfter, hd, hd', hended, hended', Member.sealAll_nil, Option.map_none,
      Option.toList_none, List.append_nil]
    exact h.members
  have hscopes : (a.read file number line).scopes = a.kept line := by
    rw [(Reader.read_code number hcode).1, scopesAfter, hd]
  have hscopes' : (b.read file number' line).scopes = b.kept line := by
    rw [(Reader.read_code number' (h.isCode.trans hcode)).1, scopesAfter, hd']
  refine ⟨h.toApart.read_of_isCode hcode hmembers number number', ?_, h.symbol, ?_, ?_⟩
  · rw [hscopes', hscopes, hkept']
  · intro s hs
    rw [hscopes, hkept, List.head?_map] at hs
    obtain ⟨s', hs', rfl⟩ := Option.map_eq_some_iff.mp hs
    exact h.outer s' hs'
  · rw [hscopes, hkept, List.head?_map, Option.map_map]
    exact h.named

/-- A declaration in the body has another parent for each of the readers. -/
theorem finish_ne_of_declares (h : Inside k m m' scope a b) (hcode : a.isCode file line = true)
    (hindent : scope.indent < indentOf line) {d : String × SymbolKind}
    (hd : a.declares? file line = some d) (number number' : Nat) (lines : List (List Char)) :
    finish file (a.read file number line) (number + 1) lines ≠
      finish file (b.read file number' line) (number' + 1) lines := by
  obtain ⟨name, kind⟩ := d
  obtain ⟨hended, hended', hkept, hkept'⟩ := h.scopes_of_indent_lt hindent
  obtain ⟨-, hmembers, -⟩ := Reader.read_code number hcode
  obtain ⟨-, hmembers', -⟩ := Reader.read_code number' (h.isCode.trans hcode)
  have hd' : b.declares? file line = some (name, kind) := h.declares?.trans hd
  have hlength : b.members.length = a.members.length := by rw [h.members, List.length_set]
  rw [membersAfter, hd, hended, Option.map_some, Option.toList_some,
    Member.sealAll_nil] at hmembers
  rw [membersAfter, hd', hended', Option.map_some, Option.toList_some,
    Member.sealAll_nil] at hmembers'
  have hparent := getElem?_map_parent_finish hmembers file (number + 1) lines
  have hparent' := getElem?_map_parent_finish hmembers' file (number' + 1) lines
  intro heq
  rw [heq, ← hlength, hparent', Option.some.injEq] at hparent
  have hsame : some scope.qualified = a.scopes.head?.map OpenScope.qualified := by
    rw [hkept', hkept, List.head?_cons, List.head?_map] at hparent
    simpa [Member.inside, OpenScope.past, Function.comp_def] using hparent
  exact h.named hsame.symm

/-- The first line behind the body ends the scope of the declaration. -/
theorem finish_eq_iff_of_indent_le (h : Inside k m m' scope a b) (hcode : a.isCode file line = true)
    (hindent : indentOf line ≤ scope.indent) (number number' : Nat) (lines : List (List Char)) :
    finish file (a.read file number line) (number + 1) lines =
      finish file (b.read file number' line) (number' + 1) lines ↔
        m = m'.sealed scope.decisions := by
  have hscope : decide (indentOf line ≤ scope.indent) = true := by simpa using hindent
  have hkept : b.kept line = a.kept line := by
    rw [kept, h.isOpen, List.dropWhile_cons, hscope, kept]
    rfl
  have hended : b.ended line = scope :: a.ended line := by
    rw [ended, h.isOpen, List.takeWhile_cons, hscope, ended]
    rfl
  have hsealed : Member.sealAll (b.ended line) b.members =
      (Member.sealAll (a.ended line) a.members).set k (m'.sealed scope.decisions) := by
    rw [hended, Member.sealAll_cons, h.symbol, h.members, Member.modify_set_self,
      Member.sealAll_set fun s hs => h.scopes s (mem_ended hs)]
  obtain ⟨hread, hscopes⟩ := h.read_code hcode hkept hsealed number number'
  exact hread.finish_eq_iff hscopes _ _ _

theorem finish_eq_iff (h : Inside k m m' scope a b) (number number' : Nat)
    (lines : List (List Char)) :
    finish file a number lines = finish file b number' lines ↔
      (∀ l ∈ body file scope.indent a number lines, l.2 = none) ∧
        m = m'.sealed (scope.decisions +
          total (fun l => decisionsOf (trim l.1)) (body file scope.indent a number lines)) := by
  -- As long as the body declares nothing the readers stay `Inside`, and the decision points of the
  -- lines add up in the scope; a declaration in the body tells them apart for good.
  induction lines generalizing a b scope number number' with
  | nil =>
    have hfinish : finish file b number' [] =
        (Member.sealAll a.scopes a.members).set k (m'.sealed scope.decisions) := by
      rw [finish, readAll, h.isOpen, Member.sealAll_cons, h.symbol, h.members,
        Member.modify_set_self, Member.sealAll_set h.scopes]
    rw [hfinish, finish, readAll, body]
    simpa [total] using
      Member.set_eq_self_iff ((Member.getElem?_sealAll h.scopes _).trans h.member)
  | cons line lines ih =>
    rw [finish_cons, finish_cons, body]
    cases hcode : a.isCode file line with
    | false =>
      exact ih (h.read_of_not_isCode hcode number number') _ _
    | true =>
      rw [if_pos rfl]
      by_cases hindent : indentOf line ≤ scope.indent
      · rw [if_pos hindent]
        have hiff := h.finish_eq_iff_of_indent_le hcode hindent number number' lines
        simpa [total] using hiff
      · rw [if_neg hindent]
        have hlt : scope.indent < indentOf line := Nat.not_le.mp hindent
        cases hd : a.declares? file line with
        | none =>
          have hread := h.read_of_declares_none hcode hlt hd number number'
          rw [ih hread, List.forall_mem_cons, total, ← Nat.add_assoc]
          exact ⟨fun h => ⟨⟨rfl, h.1⟩, h.2⟩, fun h => ⟨h.1.2, h.2⟩⟩
        | some d =>
          have hne := h.finish_ne_of_declares hcode hlt hd number number' lines
          refine ⟨fun heq => absurd heq hne, ?_⟩
          rintro ⟨hall, -⟩
          cases hall _ List.mem_cons_self

end Inside

end Reader

end CodeAtlas.Outline
