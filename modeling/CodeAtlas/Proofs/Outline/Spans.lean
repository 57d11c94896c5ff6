import CodeAtlas.Plugin
import CodeAtlas.Proofs.Outline.Patterns
import CodeAtlas.Proofs.Outline.Reading
import CodeAtlas.Proofs.Text.Lines
/-!
Where the symbols of an outline lie. While lines are read, a symbol lies behind an earlier one, or
it lies inside it and ends no later, or the earlier one is still open (`Laid`). Nothing is open at
the end, so that no two symbols overlap in part (`spans_are_nested`).
-/
namespace CodeAtlas

namespace Span

def Contains (outer inner : Span) : Prop :=
  outer.startLine ≤ inner.startLine ∧ inner.endLine ≤ outer.endLine

def EndsBefore (a b : Span) : Prop :=
  a.endLine < b.startLine

end Span

def Symbol.span (s : Symbol) : Span :=
  s.location.span

namespace Outline

open Text

def IsOpen (scopes : List OpenScope) (i : Nat) : Prop :=
  ∃ o ∈ scopes, o.symbol = i

/-- A symbol is still open, or it holds another one, which is not. -/
def Encloses (scopes : List OpenScope) (i j : Nat) (s t : Symbol) : Prop :=
  IsOpen scopes i ∨ t.span.endLine ≤ s.span.endLine ∧ ¬ IsOpen scopes j

/-- How the symbols lie that were found on the lines up to `last`. -/
structure Laid (last : Nat) (scopes : List OpenScope) (symbols : List Symbol) : Prop where
  ordered : (symbols.map fun s => s.span.startLine).Pairwise (· < ·)
  bounded : ∀ s ∈ symbols, 1 ≤ s.span.startLine ∧ s.span.startLine ≤ s.span.endLine ∧
    s.span.endLine ≤ last
  inner : scopes.Pairwise fun a b => b.symbol < a.symbol
  named : ∀ o ∈ scopes, ∃ s, symbols[o.symbol]? = some s ∧ s.qualifiedName = o.qualified
  apart : ∀ i j s t, i < j → symbols[i]? = some s → symbols[j]? = some t →
    s.span.EndsBefore t.span ∨ Encloses scopes i j s t
  parents : ∀ j t p, symbols[j]? = some t → t.parent = some p →
    ∃ i s, i < j ∧ symbols[i]? = some s ∧ s.qualifiedName = p ∧ Encloses scopes i j s t

namespace Laid

variable {last last' : Nat} {scopes : List OpenScope} {symbols : List Symbol} {o : OpenScope}

theorem start : Laid 0 [] [] where
  ordered := .nil
  bounded _ hs := absurd hs List.not_mem_nil
  inner := .nil
  named _ ho := absurd ho List.not_mem_nil
  apart _ _ _ _ _ hs := by cases hs
  parents _ _ _ ht := by cases ht

theorem mono (h : Laid last scopes symbols) (hlast : last ≤ last') : Laid last' scopes symbols where
  ordered := h.ordered
  bounded s hs := (h.bounded s hs).imp_right fun hend => ⟨hend.1, hend.2.trans hlast⟩
  inner := h.inner
  named := h.named
  apart := h.apart
  parents := h.parents

/-! ### Ending scopes -/

theorem lt_of_isOpen (h : Laid last (o :: scopes) symbols) {j : Nat} (hj : IsOpen scopes j) :
    j < o.symbol := by
  obtain ⟨o', ho', rfl⟩ := hj
  exact (List.pairwise_cons.mp h.inner).1 o' ho'

def after (o : OpenScope) (last i : Nat) (s : Symbol) : Symbol :=
  if o.symbol = i then Reader.closed o last s else s

theorem exists_of_getElem?_modify {i : Nat} {s : Symbol}
    (h : (symbols.modify o.symbol (Reader.closed o last))[i]? = some s) :
    ∃ s', symbols[i]? = some s' ∧ s = after o last i s' := by
  rw [List.getElem?_modify] at h
  obtain ⟨s', hs', rfl⟩ := Option.map_eq_some_iff.mp h
  exact ⟨s', hs', rfl⟩

theorem getElem?_modify_after {i : Nat} {s : Symbol} (h : symbols[i]? = some s) :
    (symbols.modify o.symbol (Reader.closed o last))[i]? = some (after o last i s) := by
  rw [List.getElem?_modify, h]
  rfl

@[simp] theorem after_startLine (i : Nat) (s : Symbol) :
    (after o last i s).span.startLine = s.span.startLine := by
  unfold after
  split <;> rfl

@[simp] theorem after_parent (i : Nat) (s : Symbol) : (after o last i s).parent = s.parent := by
  unfold after
  split <;> rfl

@[simp] theorem after_qualifiedName (i : Nat) (s : Symbol) :
    (after o last i s).qualifiedName = s.qualifiedName := by
  unfold after
  split <;> rfl

theorem after_of_ne {i : Nat} (hi : o.symbol ≠ i) (s : Symbol) : after o last i s = s :=
  if_neg hi

theorem after_endLine_self {s : Symbol} (hs : s.span.startLine ≤ last) :
    (after o last o.symbol s).span.endLine = last := by
  rw [after, if_pos rfl]
  exact Nat.max_eq_left hs

theorem startLine_le (h : Laid last scopes symbols) {i : Nat} {s : Symbol}
    (hs : symbols[i]? = some s) : s.span.startLine ≤ last := by
  obtain ⟨-, hstart, hend⟩ := h.bounded s (List.mem_of_getElem? hs)
  exact hstart.trans hend

theorem endLine_after_le (h : Laid last scopes symbols) (hlast : last ≤ last') {i : Nat}
    {s : Symbol} (hs : symbols[i]? = some s) : (after o last' i s).span.endLine ≤ last' := by
  by_cases hi : o.symbol = i
  · subst hi
    exact (after_endLine_self ((h.startLine_le hs).trans hlast)).le
  · rw [after_of_ne hi]
    exact (h.bounded s (List.mem_of_getElem? hs)).2.2.trans hlast

/-- The innermost symbol that is open ends behind all that are not. -/
theorem encloses_self (h : Laid last (o :: scopes) symbols) (hlast : last ≤ last') {j : Nat}
    {s t : Symbol} (hj : o.symbol < j) (hs : symbols[o.symbol]? = some s)
    (ht : symbols[j]? = some t) :
    Encloses scopes o.symbol j (after o last' o.symbol s) (after o last' j t) := by
  refine .inr ⟨?_, fun hopen => ?_⟩
  · rw [after_endLine_self ((h.startLine_le hs).trans hlast)]
    exact h.endLine_after_le hlast ht
  · have hlt := h.lt_of_isOpen hopen
    omega

/-- Closing the innermost scope keeps what encloses what. -/
theorem encloses_after (h : Laid last (o :: scopes) symbols) (hlast : last ≤ last') {i j : Nat}
    {s t : Symbol} (hij : i < j) (hs : symbols[i]? = some s) (ht : symbols[j]? = some t)
    (hencloses : Encloses (o :: scopes) i j s t) :
    Encloses scopes i j (after o last' i s) (after o last' j t) := by
  by_cases hi : o.symbol = i
  · subst hi
    exact h.encloses_self hlast hij hs ht
  rcases hencloses with ⟨o', ho', hopen⟩ | ⟨hend, hnot⟩
  · rcases List.mem_cons.mp ho' with rfl | ho'
    · exact absurd hopen hi
    · exact .inl ⟨o', ho', hopen⟩
  · have hj : o.symbol ≠ j := fun hj => hnot ⟨o, List.mem_cons_self, hj⟩
    rw [after_of_ne hi, after_of_ne hj]
    refine .inr ⟨hend, fun ⟨o', ho', hopen⟩ => hnot ⟨o', List.mem_cons_of_mem _ ho', hopen⟩⟩

/-- Ending the innermost scope. -/
theorem close (h : Laid last (o :: scopes) symbols) (hlast : last ≤ last') :
    Laid last' scopes (symbols.modify o.symbol (Reader.closed o last')) where
  ordered := by
    have hkept : ∀ s, (Reader.closed o last' s).span.startLine = s.span.startLine := fun _ => rfl
    rw [map_modify_of_eq hkept]
    exact h.ordered
  bounded s hs := by
    obtain ⟨i, hi⟩ := List.mem_iff_getElem?.mp hs
    obtain ⟨s, hs', rfl⟩ := exists_of_getElem?_modify hi
    obtain ⟨hfirst, hstart, hend⟩ := h.bounded s (List.mem_of_getElem? hs')
    refine ⟨by rwa [after_startLine], ?_, h.endLine_after_le hlast hs'⟩
    rw [after_startLine]
    by_cases hi : o.symbol = i
    · subst hi
      rw [after_endLine_self ((h.startLine_le hs').trans hlast)]
      omega
    · rwa [after_of_ne hi]
  inner := h.inner.of_cons
  named o' ho' := by
    obtain ⟨s, hs, hname⟩ := h.named o' (List.mem_cons_of_mem o ho')
    exact ⟨_, getElem?_modify_after hs, by rwa [after_qualifiedName]⟩
  apart i j s t hij hs ht := by
    obtain ⟨s, hs', rfl⟩ := exists_of_getElem?_modify hs
    obtain ⟨t, ht', rfl⟩ := exists_of_getElem?_modify ht
    rcases h.apart i j s t hij hs' ht' with hbefore | hencloses
    · by_cases hi : o.symbol = i
      -- Its span, one line until now, reaches over all symbols behind it.
      · subst hi
        exact .inr (h.encloses_self hlast hij hs' ht')
      · left
        unfold Span.EndsBefore at hbefore ⊢
        rwa [after_of_ne hi, after_startLine]
    · exact .inr (h.encloses_after hlast hij hs' ht' hencloses)
  parents j t p ht hp := by
    obtain ⟨t, ht', rfl⟩ := exists_of_getElem?_modify ht
    rw [after_parent] at hp
    obtain ⟨i, s, hij, hs, hname, hencloses⟩ := h.parents j t p ht' hp
    exact ⟨i, _, hij, getElem?_modify_after hs, by rwa [after_qualifiedName],
      h.encloses_after hlast hij hs ht' hencloses⟩

/-- Ending several scopes on one line. -/
theorem closeAll {ended : List OpenScope} (h : Laid last (ended ++ scopes) symbols)
    (hlast : last ≤ last') : Laid last' scopes (Reader.closeAll last' ended symbols) := by
  induction ended generalizing last symbols with
  | nil => exact h.mono hlast
  | cons o ended ih => exact ih (h.close hlast) le_rfl

/-! ### Counting decision points and adding symbols -/

theorem isOpen_past {line : List Char} {i : Nat} :
    IsOpen (scopes.map (OpenScope.past line)) i ↔ IsOpen scopes i := by
  constructor
  · rintro ⟨o, ho, hopen⟩
    obtain ⟨o', ho', rfl⟩ := List.mem_map.mp ho
    exact ⟨o', ho', hopen⟩
  · rintro ⟨o, ho, hopen⟩
    exact ⟨o.past line, List.mem_map_of_mem ho, hopen⟩

/-- The decisions that open scopes count do not move their symbols. -/
theorem past (h : Laid last scopes symbols) (line : List Char) :
    Laid last (scopes.map (OpenScope.past line)) symbols where
  ordered := h.ordered
  bounded := h.bounded
  inner := h.inner.map _ fun _ _ hlt => hlt
  named o ho := by
    obtain ⟨o', ho', rfl⟩ := List.mem_map.mp ho
    exact h.named o' ho'
  apart i j s t hij hs ht := by
    unfold Encloses
    rw [isOpen_past, isOpen_past]
    exact h.apart i j s t hij hs ht
  parents j t p ht hp := by
    unfold Encloses
    simp only [isOpen_past]
    exact h.parents j t p ht hp

theorem symbol_lt (h : Laid last scopes symbols) (ho : o ∈ scopes) : o.symbol < symbols.length := by
  obtain ⟨s, hs, -⟩ := h.named o ho
  exact (List.getElem?_eq_some_iff.mp hs).1

/-- What encloses a symbol does so when later symbols are added. -/
theorem encloses_add {opened : Option OpenScope} {i j : Nat} {s t : Symbol}
    (hopened : ∀ o ∈ opened, o.symbol = symbols.length) (hj : j < symbols.length)
    (h : Encloses scopes i j s t) : Encloses (opened.toList ++ scopes) i j s t := by
  rcases h with ⟨o, ho, hopen⟩ | ⟨hend, hnot⟩
  · exact .inl ⟨o, List.mem_append_right _ ho, hopen⟩
  · refine .inr ⟨hend, ?_⟩
    rintro ⟨o, ho, hopen⟩
    rcases List.mem_append.mp ho with ho | ho
    · have hlast := hopened o (Option.mem_toList.mp ho)
      omega
    · exact hnot ⟨o, ho, hopen⟩

theorem getElem?_concat_of_eq_some {i : Nat} {s : Symbol} (t : Symbol) (hs : symbols[i]? = some s) :
    (symbols ++ [t])[i]? = some s := by
  rw [List.getElem?_append_left (List.getElem?_eq_some_iff.mp hs).1, hs]

/-- A symbol is one of before or the new one. -/
theorem eq_some_of_getElem?_concat {i : Nat} {s t : Symbol} (hs : (symbols ++ [t])[i]? = some s) :
    i < symbols.length ∧ symbols[i]? = some s ∨ i = symbols.length ∧ s = t := by
  rcases Nat.lt_trichotomy i symbols.length with hi | rfl | hi
  · rw [List.getElem?_append_left hi] at hs
    exact .inl ⟨hi, hs⟩
  · rw [List.getElem?_concat_length] at hs
    exact .inr ⟨rfl, (Option.some.inj hs).symm⟩
  · have hlength : (symbols ++ [t]).length ≤ i := by
      rw [List.length_append, List.length_singleton]
      omega
    rw [List.getElem?_eq_none hlength] at hs
    cases hs

/-- Adding the symbol of the next line, with the scope that it opens unless the line closes it. -/
theorem add {t : Symbol} (opened : Option OpenScope) (h : Laid last scopes symbols)
    (hstart : t.span.startLine = last + 1) (hend : t.span.endLine = last + 1)
    (hparent : t.parent = scopes.head?.map OpenScope.qualified)
    (hopened : ∀ o ∈ opened, o.symbol = symbols.length ∧ o.qualified = t.qualifiedName) :
    Laid (last + 1) (opened.toList ++ scopes) (symbols ++ [t]) := by
  constructor
  case ordered =>
    rw [List.map_append, List.map_singleton, List.pairwise_append]
    refine ⟨h.ordered, List.pairwise_singleton _ _, ?_⟩
    intro first hfirst first' hfirst'
    obtain ⟨s, hs, rfl⟩ := List.mem_map.mp hfirst
    have hs' := h.bounded s hs
    rw [List.mem_singleton.mp hfirst', hstart]
    omega
  case bounded =>
    intro s hs
    rcases List.mem_append.mp hs with hs | hs
    · exact (h.mono (Nat.le_succ last)).bounded s hs
    · rw [List.mem_singleton.mp hs, hstart, hend]
      omega
  case inner =>
    rw [List.pairwise_append]
    refine ⟨?_, h.inner, ?_⟩
    · cases opened with
      | none => exact .nil
      | some o => exact List.pairwise_singleton _ _
    · intro o ho o' ho'
      rw [(hopened o (Option.mem_toList.mp ho)).1]
      exact h.symbol_lt ho'
  case named =>
    intro o ho
    rcases List.mem_append.mp ho with ho | ho
    · obtain ⟨hsymbol, hqualified⟩ := hopened o (Option.mem_toList.mp ho)
      exact ⟨t, hsymbol ▸ List.getElem?_concat_length, hqualified.symm⟩
    · obtain ⟨s, hs, hname⟩ := h.named o ho
      exact ⟨s, getElem?_concat_of_eq_some t hs, hname⟩
  case apart =>
    intro i j s u hij hs hu
    rcases eq_some_of_getElem?_concat hu with ⟨hj, hu⟩ | ⟨hj, rfl⟩
    · have hs' : symbols[i]? = some s := by
        rwa [List.getElem?_append_left (hij.trans hj)] at hs
      refine (h.apart i j s u hij hs' hu).imp_right ?_
      exact encloses_add (fun o ho => (hopened o ho).1) hj
    · left
      rw [List.getElem?_append_left (hj ▸ hij)] at hs
      have hs' := h.bounded s (List.mem_of_getElem? hs)
      unfold Span.EndsBefore
      omega
  case parents =>
    intro j u p hu hp
    rcases eq_some_of_getElem?_concat hu with ⟨hj, hu⟩ | ⟨rfl, rfl⟩
    · obtain ⟨i, s, hij, hs, hname, hencloses⟩ := h.parents j u p hu hp
      exact ⟨i, s, hij, getElem?_concat_of_eq_some t hs, hname,
        encloses_add (fun o ho => (hopened o ho).1) hj hencloses⟩
    · rw [hparent] at hp
      obtain ⟨o, ho, rfl⟩ := Option.map_eq_some_iff.mp hp
      have hmem : o ∈ scopes := List.mem_of_mem_head? ho
      obtain ⟨s, hs, hname⟩ := h.named o hmem
      exact ⟨o.symbol, s, h.symbol_lt hmem, getElem?_concat_of_eq_some _ hs, hname,
        .inl ⟨o, List.mem_append_right _ hmem, rfl⟩⟩

/-! ### Reading -/

variable {r : Reader} {file : SourceFile}

/-- The scopes and the symbols before what a line of code declares. -/
theorem advance (h : Laid last r.scopes r.found.symbols) (line : List Char) :
    Laid (if closers.contains (trim line) then last + 1 else last)
      (r.advance (last + 1) line (trim line)).scopes
      (r.advance (last + 1) line (trim line)).found.symbols := by
  have hscopes : (r.advance (last + 1) line (trim line)).scopes = r.kept line :=
    Reader.advance_scopes (last + 1)
  have hsymbols : (r.advance (last + 1) line (trim line)).found.symbols =
      Reader.closeAll (if closers.contains (trim line) then last + 1 else last) (r.ended line)
        r.found.symbols := Reader.advance_symbols (last + 1)
  have hsplit : r.scopes = r.ended line ++ r.scopes.dropWhile fun s => indentOf line ≤ s.indent :=
    List.takeWhile_append_dropWhile.symm
  rw [hscopes, hsymbols, Reader.kept]
  rw [hsplit] at h
  refine (h.closeAll ?_).past line
  split
  · exact Nat.le_succ last
  · exact le_rfl

/-- A declaration on the next line lies inside the open scopes and after the closed ones. -/
theorem addSymbol (h : Laid last r.scopes r.found.symbols) (file : SourceFile)
    (indent decisions : Nat) (line : List Char) (name : String) (kind : SymbolKind) :
    Laid (last + 1) (r.addSymbol file (last + 1) indent decisions line name kind).scopes
      (r.addSymbol file (last + 1) indent decisions line name kind).found.symbols := by
  unfold Reader.addSymbol
  dsimp only
  split
  · exact h.add none rfl rfl rfl nofun
  · refine h.add (some _) rfl rfl rfl ?_
    rintro o ho
    obtain rfl := Option.some.inj ho
    exact ⟨rfl, rfl⟩

/-- Reading one line. -/
theorem read (h : Laid last r.scopes r.found.symbols) (file : SourceFile) (line : List Char) :
    Laid (last + 1) (r.read file (last + 1) line).scopes
      (r.read file (last + 1) line).found.symbols := by
  cases hcode : r.isCode file line with
  | false =>
    rw [Reader.read_of_not_isCode hcode]
    exact h.mono (Nat.le_succ last)
  | true =>
    have hadvance := h.advance line
    rw [Reader.read_of_isCode hcode]
    cases hd : (r.advance (last + 1) line (trim line)).declares? file line with
    | none =>
      obtain ⟨imports, hrecord⟩ := Reader.record_of_declares_none
        (r := r.advance (last + 1) line (trim line)) (last + 1) hcode hd
      rw [hrecord]
      refine hadvance.mono ?_
      split
      · exact le_rfl
      · exact Nat.le_succ last
    | some d =>
      obtain ⟨name, kind⟩ := d
      obtain ⟨-, -, -, -, hdeclaration⟩ := Reader.declares?_eq_some_iff.mp hd
      have hopen : ¬ closers.contains (trim line) = true := by
        intro hcloser
        rw [declaration?_of_closer (List.contains_iff_mem.mp hcloser)] at hdeclaration
        cases hdeclaration
      rw [if_neg hopen] at hadvance
      rw [Reader.record_of_declares hd]
      exact hadvance.addSymbol _ _ _ _ _ _

/-- The symbols are laid out after any number of lines. -/
theorem readAll (h : Laid last r.scopes r.found.symbols) (file : SourceFile)
    (lines : List (List Char)) :
    Laid (last + lines.length) (Reader.readAll file r (last + 1) lines).scopes
      (Reader.readAll file r (last + 1) lines).found.symbols := by
  induction lines generalizing r last with
  | nil => exact h
  | cons line lines ih =>
    have hlength : last + (line :: lines).length = last + 1 + lines.length := by
      rw [List.length_cons]
      omega
    rw [hlength]
    exact ih (h.read file line)

/-- Nothing is open when all lines have been read. -/
theorem ofLines (file : SourceFile) (lines : List (List Char)) :
    Laid lines.length [] (Outline.ofLines file lines).symbols := by
  have hall := start.readAll (r := .start) file lines
  rw [Nat.zero_add, ← List.append_nil (Reader.readAll file .start 1 lines).scopes] at hall
  exact hall.closeAll le_rfl

end Laid

/-- The symbols of an outline lie in order, on the lines of the text, and apart from each other or
one inside the other. A symbol with a parent lies inside an earlier symbol that has the name of the
parent. -/
structure Nested (lines : Nat) (symbols : List Symbol) : Prop where
  ordered : (symbols.map fun s => s.span.startLine).Pairwise (· < ·)
  bounded : ∀ s ∈ symbols, 1 ≤ s.span.startLine ∧ s.span.startLine ≤ s.span.endLine ∧
    s.span.endLine ≤ lines
  apart : ∀ s ∈ symbols, ∀ t ∈ symbols, s.span.EndsBefore t.span ∨ t.span.EndsBefore s.span ∨
    s.span.Contains t.span ∨ t.span.Contains s.span
  parents : ∀ (j : Nat) (t : Symbol) (p : String), symbols[j]? = some t → t.parent = some p →
    ∃ (i : Nat) (s : Symbol), i < j ∧ symbols[i]? = some s ∧ s.qualifiedName = p ∧
      s.span.Contains t.span

namespace Laid

variable {lines : Nat} {symbols : List Symbol}

/-- Once no scope is open, what encloses a symbol contains its lines. -/
theorem contains_of_encloses (h : Laid lines [] symbols) {i j : Nat} {s t : Symbol} (hij : i < j)
    (hs : symbols[i]? = some s) (ht : symbols[j]? = some t) (hencloses : Encloses [] i j s t) :
    s.span.Contains t.span := by
  rcases hencloses with ⟨o, ho, -⟩ | ⟨hend, -⟩
  · cases ho
  · obtain ⟨hi, hs⟩ := List.getElem?_eq_some_iff.mp hs
    obtain ⟨hj, ht⟩ := List.getElem?_eq_some_iff.mp ht
    have hstarts := List.pairwise_iff_getElem.mp h.ordered i j (by simpa) (by simpa) hij
    rw [List.getElem_map, List.getElem_map, hs, ht] at hstarts
    exact ⟨hstarts.le, hend⟩

/-- When all scopes are closed the symbols are nested. -/
theorem nested (h : Laid lines [] symbols) : Nested lines symbols where
  ordered := h.ordered
  bounded := h.bounded
  apart s hs t ht := by
    obtain ⟨i, hi⟩ := List.mem_iff_getElem?.mp hs
    obtain ⟨j, hj⟩ := List.mem_iff_getElem?.mp ht
    rcases Nat.lt_trichotomy i j with hij | rfl | hij
    · rcases h.apart i j s t hij hi hj with hbefore | hencloses
      · exact .inl hbefore
      · exact .inr (.inr (.inl (h.contains_of_encloses hij hi hj hencloses)))
    · obtain rfl := Option.some.inj (hi.symm.trans hj)
      exact .inr (.inr (.inl ⟨le_rfl, le_rfl⟩))
    · rcases h.apart j i t s hij hj hi with hbefore | hencloses
      · exact .inr (.inl hbefore)
      · exact .inr (.inr (.inr (h.contains_of_encloses hij hj hi hencloses)))
  parents j t p ht hp := by
    obtain ⟨i, s, hij, hs, hname, hencloses⟩ := h.parents j t p ht hp
    exact ⟨i, s, hij, hs, hname, h.contains_of_encloses hij hs ht hencloses⟩

end Laid

/-- The text plugin reads any bytes, and the symbols that it finds lie on the lines that it counts:
in order, and apart from each other or one inside the other. -/
theorem spans_are_nested (file : SourceFile) (source : Syntax.Source) :
    ∃ reading symbols, Plugin.text.read file source = .ok reading ∧
      Plugin.text.symbols file reading = .ok symbols ∧ Nested reading.metrics.lines symbols := by
  refine ⟨_, _, rfl, rfl, ?_⟩
  change Nested ((ofBytes file source.bytes).metrics source.bytes).lines
    (ofBytes file source.bytes).symbols
  unfold ofBytes metrics
  by_cases hbinary : isBinary source.bytes = true
  · rw [if_pos hbinary, if_pos hbinary]
    exact Laid.start.nested
  · rw [if_neg hbinary, if_neg hbinary, ← length_lines_lossy]
    exact (Laid.ofLines file _).nested

end Outline

end CodeAtlas
