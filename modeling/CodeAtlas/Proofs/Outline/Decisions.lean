import CodeAtlas.Proofs.Outline.Spans
import Mathlib.Data.List.Flatten
/-!
Decision points of the callables of an outline. While lines are read, each open scope has counted
the decision points from the line of its symbol on (`Counted`), so that a callable counts the ones
on its lines, or none if its line closes itself (`Counted.ofLines`). Symbols none of which lies
inside another one share no line, and so no decision point (`linesOf_apart`).
-/
namespace CodeAtlas

def Span.among (span : Span) (numbers : List Nat) : List Nat :=
  numbers.filter fun n => span.startLine ≤ n ∧ n ≤ span.endLine

namespace Span

variable {span : Span} {numbers : List Nat}

theorem length_among (h : ∀ n ∈ numbers, n ≤ span.endLine) :
    (span.among numbers).length = numbers.countP fun n => span.startLine ≤ n := by
  rw [among, ← List.countP_eq_length_filter]
  apply List.countP_congr
  intro n hn
  have hend := h n hn
  simp only [decide_eq_true_eq]
  omega

/-- What lies behind a span is none of its lines. -/
theorem among_append {more : List Nat} (h : ∀ n ∈ more, span.endLine < n) :
    span.among (numbers ++ more) = span.among numbers := by
  have hnone : more.filter (fun n => span.startLine ≤ n ∧ n ≤ span.endLine) = [] := by
    apply List.filter_eq_nil_iff.mpr
    intro n hn
    have hend := h n hn
    simp only [decide_eq_true_eq]
    omega
  rw [among, List.filter_append, hnone, List.append_nil, among]

end Span

/-- A callable counts the decision points on its lines, or none. -/
def Symbol.Counts (points : List Nat) (s : Symbol) : Prop :=
  ∃ counted, (counted = [] ∨ counted = s.span.among points) ∧
    s.complexity = if s.kind.isCallable then some (complexityOf counted.length) else none

/-- The decision points that a symbol counts: those on its lines if they make up its complexity. -/
def Symbol.linesOf (points : List Nat) (s : Symbol) : List Nat :=
  if s.complexity = some (complexityOf (s.span.among points).length) then s.span.among points
  else []

theorem Symbol.linesOf_sublist (points : List Nat) (s : Symbol) :
    (s.linesOf points).Sublist (s.span.among points) := by
  unfold linesOf
  split
  · exact List.Sublist.refl _
  · exact List.nil_sublist _

/-- The complexity of a symbol is that of the decision lines it holds. -/
theorem Symbol.Counts.complexity_eq {points : List Nat} {s : Symbol} (h : s.Counts points) :
    s.complexity =
      if s.kind.isCallable then some (complexityOf (s.linesOf points).length) else none := by
  obtain ⟨counted, hcounted, hcomplexity⟩ := h
  rw [hcomplexity]
  by_cases hcallable : s.kind.isCallable = true
  · rw [if_pos hcallable] at hcomplexity
    rw [if_pos hcallable, if_pos hcallable, linesOf, hcomplexity]
    rcases hcounted with rfl | rfl
    · split
      · rename_i hsame
        exact hsame
      · rfl
    · rw [if_pos rfl]
  · rw [if_neg hcallable, if_neg hcallable]

namespace Outline

open Text

namespace Reader

/-- The number of a line, once for every decision point that it holds. -/
def linesAt (r : Reader) (file : SourceFile) (number : Nat) (line : List Char) : List Nat :=
  if r.isCode file line then List.replicate (decisionsOf (trim line)) number else []

def decisionLines (file : SourceFile) : Reader → Nat → List (List Char) → List Nat
  | _, _, [] => []
  | r, number, line :: rest =>
    r.linesAt file number line ++ decisionLines file (r.read file number line) (number + 1) rest

/-- A line adds the decisions that are counted at it. -/
theorem decisions_read (r : Reader) (file : SourceFile) (number : Nat) (line : List Char) :
    (r.read file number line).found.decisions =
      r.found.decisions + (r.linesAt file number line).length := by
  unfold linesAt
  cases hcode : r.isCode file line with
  | false =>
    rw [read_of_not_isCode hcode]
    rfl
  | true =>
    have hadvance : (r.advance number line (trim line)).found.decisions =
        r.found.decisions + decisionsOf (trim line) := rfl
    rw [read_of_isCode hcode, if_pos rfl, List.length_replicate, ← hadvance]
    cases hd : (r.advance number line (trim line)).declares? file line with
    | none =>
      obtain ⟨imports, hrecord⟩ :=
        record_of_declares_none (r := r.advance number line (trim line)) number hcode hd
      rw [hrecord]
    | some d =>
      rw [record_of_declares hd]
      rfl

/-- A reader counts the decision points of the lines that it reads. -/
theorem decisions_readAll (file : SourceFile) (r : Reader) (number : Nat)
    (lines : List (List Char)) :
    (readAll file r number lines).found.decisions =
      r.found.decisions + (decisionLines file r number lines).length := by
  induction lines generalizing r number with
  | nil => rfl
  | cons line lines ih =>
    rw [readAll, ih, decisions_read, decisionLines, List.length_append, Nat.add_assoc]

end Reader

/-- Lines that end a scope hold no decision point. -/
theorem decisionsOf_of_closer {line : List Char} (h : line ∈ closers) : decisionsOf line = 0 := by
  have hall : ∀ l ∈ closers, decisionsOf l = 0 := by decide +kernel
  exact hall line h

/-- What was counted of the decision points on the lines up to `last`. -/
structure Counted (last : Nat) (points : List Nat) (scopes : List OpenScope)
    (symbols : List Symbol) : Prop where
  sorted : points.Pairwise (· ≤ ·)
  le : ∀ n ∈ points, n ≤ last
  opened : ∀ o ∈ scopes, ∀ s, symbols[o.symbol]? = some s →
    o.decisions = points.countP fun n => s.span.startLine ≤ n
  counts : ∀ s ∈ symbols, s.Counts points

namespace Counted

variable {last number : Nat} {points : List Nat} {scopes : List OpenScope} {symbols : List Symbol}
  {o : OpenScope}

theorem start : Counted 0 [] [] [] where
  sorted := .nil
  le _ hn := absurd hn List.not_mem_nil
  opened _ ho := absurd ho List.not_mem_nil
  counts _ hs := absurd hs List.not_mem_nil

theorem mono (h : Counted last points scopes symbols) (hlast : last ≤ number) :
    Counted number points scopes symbols where
  sorted := h.sorted
  le n hn := (h.le n hn).trans hlast
  opened := h.opened
  counts := h.counts

/-- Ending the innermost scope gives its symbol the decision points on the lines up to there. -/
theorem close (h : Counted last points (o :: scopes) symbols) (hlast : last ≤ number) :
    Counted last points scopes (symbols.modify o.symbol (Reader.closed o number)) where
  sorted := h.sorted
  le := h.le
  opened o' ho' s hs := by
    obtain ⟨s', hs', rfl⟩ := Laid.exists_of_getElem?_modify hs
    rw [Laid.after_startLine]
    exact h.opened o' (List.mem_cons_of_mem o ho') s' hs'
  counts s hs := by
    obtain ⟨i, hi⟩ := List.mem_iff_getElem?.mp hs
    obtain ⟨s', hs', rfl⟩ := Laid.exists_of_getElem?_modify hi
    by_cases hi : o.symbol = i
    · subst hi
      refine ⟨_, .inr rfl, ?_⟩
      have hclosed : Laid.after o number o.symbol s' = Reader.closed o number s' := if_pos rfl
      have hend : ∀ n ∈ points, n ≤ (Reader.closed o number s').span.endLine := fun n hn =>
        ((h.le n hn).trans hlast).trans (le_max_left _ _)
      have hcount := h.opened o List.mem_cons_self s' hs'
      rw [hclosed, Span.length_among hend]
      change (if s'.kind.isCallable then some (complexityOf o.decisions) else s'.complexity) = _
      rw [hcount]
      by_cases hcallable : s'.kind.isCallable = true
      · rw [if_pos hcallable]
        exact (if_pos hcallable).symm
      · obtain ⟨counted, -, hnone⟩ := h.counts s' (List.mem_of_getElem? hs')
        rw [if_neg hcallable] at hnone ⊢
        exact hnone.trans (if_neg hcallable).symm
    · rw [Laid.after_of_ne hi]
      exact h.counts s' (List.mem_of_getElem? hs')

theorem closeAll {ended : List OpenScope} (h : Counted last points (ended ++ scopes) symbols)
    (hlast : last ≤ number) :
    Counted last points scopes (Reader.closeAll number ended symbols) := by
  induction ended generalizing symbols with
  | nil => exact h
  | cons o ended ih => exact ih (h.close hlast)

/-- Counting the decision points of the next line. -/
theorem more (h : Counted last points scopes symbols) (line : List Char)
    (hstart : ∀ s ∈ symbols, s.span.startLine ≤ last + 1)
    (hend : decisionsOf (trim line) = 0 ∨ ∀ s ∈ symbols, s.span.endLine ≤ last) :
    Counted (last + 1) (points ++ List.replicate (decisionsOf (trim line)) (last + 1))
      (scopes.map (OpenScope.past line)) symbols where
  sorted := by
    refine List.pairwise_append.mpr ⟨h.sorted, List.pairwise_replicate.mpr (.inr le_rfl), ?_⟩
    intro n hn m hm
    rw [List.eq_of_mem_replicate hm]
    exact (h.le n hn).trans (Nat.le_succ last)
  le n hn := by
    rcases List.mem_append.mp hn with hn | hn
    · exact (h.le n hn).trans (Nat.le_succ last)
    · exact (List.eq_of_mem_replicate hn).le
  opened o ho s hs := by
    obtain ⟨o', ho', rfl⟩ := List.mem_map.mp ho
    have hfirst := hstart s (List.mem_of_getElem? hs)
    have hline : (List.replicate (decisionsOf (trim line)) (last + 1)).countP
        (fun n => s.span.startLine ≤ n) = decisionsOf (trim line) := by
      rw [List.countP_replicate, if_pos (decide_eq_true hfirst)]
    rw [List.countP_append, hline, ← h.opened o' ho' s hs]
    rfl
  counts s hs := by
    obtain ⟨counted, hcounted, hcomplexity⟩ := h.counts s hs
    -- If the line is one of the symbol's own it holds no decision point, and else it lies behind.
    refine ⟨counted, hcounted.imp_right ?_, hcomplexity⟩
    rintro rfl
    symm
    apply Span.among_append
    intro n hn
    rcases hend with hzero | hend
    · rw [hzero] at hn
      cases hn
    · rw [List.eq_of_mem_replicate hn]
      exact Nat.lt_succ_of_le (hend s hs)

/-- Adding a symbol, with the scope that it opens unless its line closes it. -/
theorem add {t : Symbol} (opened : Option OpenScope) (h : Counted last points scopes symbols)
    (hscopes : ∀ o ∈ scopes, o.symbol < symbols.length)
    (hcomplexity : t.complexity = if t.kind.isCallable then some 1 else none)
    (hopened : ∀ o ∈ opened, o.symbol = symbols.length ∧
      o.decisions = points.countP fun n => t.span.startLine ≤ n) :
    Counted last points (opened.toList ++ scopes) (symbols ++ [t]) where
  sorted := h.sorted
  le := h.le
  opened o ho s hs := by
    rcases List.mem_append.mp ho with ho | ho
    · obtain ⟨hsymbol, hdecisions⟩ := hopened o (Option.mem_toList.mp ho)
      rw [hsymbol, List.getElem?_concat_length] at hs
      obtain rfl := Option.some.inj hs
      exact hdecisions
    · rw [List.getElem?_append_left (hscopes o ho)] at hs
      exact h.opened o ho s hs
  counts s hs := by
    rcases List.mem_append.mp hs with hs | hs
    · exact h.counts s hs
    · obtain rfl := List.mem_singleton.mp hs
      exact ⟨[], .inl rfl, hcomplexity⟩

/-! ### Reading -/

variable {r : Reader} {file : SourceFile}

/-- The scopes and the symbols before what a line of code declares. -/
theorem advance (h : Counted last points r.scopes r.found.symbols)
    (hlaid : Laid last r.scopes r.found.symbols) (line : List Char) :
    Counted (last + 1) (points ++ List.replicate (decisionsOf (trim line)) (last + 1))
      (r.advance (last + 1) line (trim line)).scopes
      (r.advance (last + 1) line (trim line)).found.symbols := by
  have hbounded := (hlaid.advance line).bounded
  rw [Reader.advance_symbols] at hbounded
  rw [Reader.advance_scopes, Reader.advance_symbols]
  have hsplit : r.scopes = r.ended line ++ r.scopes.dropWhile fun s => indentOf line ≤ s.indent :=
    List.takeWhile_append_dropWhile.symm
  rw [hsplit] at h
  -- Scopes end on the line before, unless this line ends them and is the last one of theirs.
  refine (h.closeAll ?_).more line ?_ ?_
  · split
    · exact Nat.le_succ last
    · exact le_rfl
  · intro s hs
    obtain ⟨-, hstart, hend⟩ := hbounded s hs
    refine (hstart.trans hend).trans ?_
    split
    · exact le_rfl
    · exact Nat.le_succ last
  · by_cases hcloser : closers.contains (trim line) = true
    · exact .inl (decisionsOf_of_closer (List.contains_iff_mem.mp hcloser))
    · right
      intro s hs
      have hend := (hbounded s hs).2.2
      rwa [if_neg hcloser] at hend

/-- A new symbol begins to count at its own line. -/
theorem addSymbol (h : Counted last points r.scopes r.found.symbols)
    (hscopes : ∀ o ∈ r.scopes, o.symbol < r.found.symbols.length) {count : Nat}
    (hcount : count = points.countP fun n => number ≤ n) (file : SourceFile) (indent : Nat)
    (line : List Char) (name : String) (kind : SymbolKind) :
    Counted last points (r.addSymbol file number indent count line name kind).scopes
      (r.addSymbol file number indent count line name kind).found.symbols := by
  unfold Reader.addSymbol
  dsimp only
  split
  · exact h.add none hscopes rfl nofun
  · refine h.add (some _) hscopes rfl ?_
    intro o ho
    obtain rfl := Option.some.inj ho
    exact ⟨rfl, hcount⟩

/-- Reading one line. -/
theorem read (h : Counted last points r.scopes r.found.symbols)
    (hlaid : Laid last r.scopes r.found.symbols) (file : SourceFile) (line : List Char) :
    Counted (last + 1) (points ++ r.linesAt file (last + 1) line)
      (r.read file (last + 1) line).scopes (r.read file (last + 1) line).found.symbols := by
  unfold Reader.linesAt
  cases hcode : r.isCode file line with
  | false =>
    rw [Reader.read_of_not_isCode hcode, if_neg Bool.false_ne_true, List.append_nil]
    exact h.mono (Nat.le_succ last)
  | true =>
    have hadvance := h.advance hlaid line
    rw [Reader.read_of_isCode hcode, if_pos rfl]
    cases hd : (r.advance (last + 1) line (trim line)).declares? file line with
    | none =>
      obtain ⟨imports, hrecord⟩ := Reader.record_of_declares_none
        (r := r.advance (last + 1) line (trim line)) (last + 1) hcode hd
      rw [hrecord]
      exact hadvance
    | some d =>
      obtain ⟨name, kind⟩ := d
      have hold : points.countP (fun n => last + 1 ≤ n) = 0 := by
        apply List.countP_eq_zero.mpr
        intro n hn
        have hle := h.le n hn
        simp only [decide_eq_true_eq]
        omega
      have hcount : decisionsOf (trim line) =
          (points ++ List.replicate (decisionsOf (trim line)) (last + 1)).countP
            fun n => last + 1 ≤ n := by
        rw [List.countP_append, hold, List.countP_replicate, if_pos (decide_eq_true le_rfl),
          Nat.zero_add]
      have hscopes := fun o ho => (hlaid.advance line).symbol_lt (o := o) ho
      rw [Reader.record_of_declares hd]
      exact hadvance.addSymbol hscopes hcount file _ _ name kind

/-- The counts are right after any number of lines. -/
theorem readAll (h : Counted last points r.scopes r.found.symbols)
    (hlaid : Laid last r.scopes r.found.symbols) (file : SourceFile)
    (lines : List (List Char)) :
    Counted (last + lines.length) (points ++ Reader.decisionLines file r (last + 1) lines)
      (Reader.readAll file r (last + 1) lines).scopes
      (Reader.readAll file r (last + 1) lines).found.symbols := by
  induction lines generalizing r last points with
  | nil =>
    rw [Reader.decisionLines, List.append_nil]
    exact h
  | cons line lines ih =>
    have hlength : last + (line :: lines).length = last + 1 + lines.length := by
      rw [List.length_cons]
      omega
    rw [hlength, Reader.decisionLines, ← List.append_assoc]
    exact ih (h.read hlaid file line) (hlaid.read file line)

/-- When all lines have been read, every callable has counted. -/
theorem ofLines (file : SourceFile) (lines : List (List Char)) :
    Counted lines.length (Reader.decisionLines file .start 1 lines) []
      (Outline.ofLines file lines).symbols := by
  have hall := start.readAll (r := .start) Laid.start file lines
  rw [Nat.zero_add, ← List.append_nil (Reader.readAll file .start 1 lines).scopes,
    List.nil_append] at hall
  exact hall.closeAll le_rfl

end Counted

/-! ### Symbols apart -/

/-- A sorted list is what it holds up to a number and then what it holds beyond. -/
theorem filter_le_append_filter_lt {numbers : List Nat} (h : numbers.Pairwise (· ≤ ·)) (n : Nat) :
    numbers.filter (· ≤ n) ++ numbers.filter (n < ·) = numbers := by
  induction numbers with
  | nil => rfl
  | cons m numbers ih =>
    obtain ⟨hm, hsorted⟩ := List.pairwise_cons.mp h
    by_cases hle : m ≤ n
    · rw [List.filter_cons, List.filter_cons, if_pos (decide_eq_true hle),
        if_neg (by simpa using hle), List.cons_append, ih hsorted]
    · have hlow : (m :: numbers).filter (· ≤ n) = [] := by
        apply List.filter_eq_nil_iff.mpr
        intro k hk
        have hmk : m ≤ k := by
          rcases List.mem_cons.mp hk with rfl | hk
          · exact le_rfl
          · exact hm k hk
        simp only [decide_eq_true_eq]
        omega
      have hhigh : (m :: numbers).filter (n < ·) = m :: numbers := by
        apply List.filter_eq_self.mpr
        intro k hk
        have hnone := List.filter_eq_nil_iff.mp hlow k hk
        simp only [decide_eq_true_eq] at hnone ⊢
        omega
      rw [hlow, hhigh, List.nil_append]

/-- What lies in spans one behind the other makes up a part of a sorted list. -/
theorem flatMap_among_sublist {spans : List Span} {numbers : List Nat}
    (hsorted : numbers.Pairwise (· ≤ ·)) (hspans : spans.Pairwise Span.EndsBefore) :
    (spans.flatMap fun span => span.among numbers).Sublist numbers := by
  induction spans generalizing numbers with
  | nil => exact List.nil_sublist _
  | cons span spans ih =>
    obtain ⟨hbefore, hspans⟩ := List.pairwise_cons.mp hspans
    have hfirst : (span.among numbers).Sublist (numbers.filter (· ≤ span.endLine)) := by
      apply List.monotone_filter_right
      intro n hn
      simp only [decide_eq_true_eq] at hn ⊢
      exact hn.2
    have hrest : ∀ later ∈ spans,
        later.among numbers = later.among (numbers.filter (span.endLine < ·)) := by
      intro later hlater
      have hlt : span.endLine < later.startLine := hbefore later hlater
      rw [Span.among, Span.among, List.filter_filter]
      apply List.filter_congr
      intro n _
      rw [← Bool.decide_and, decide_eq_decide]
      omega
    rw [List.flatMap_cons, List.flatMap_congr hrest]
    refine (hfirst.append (ih (hsorted.filter _) hspans)).trans ?_
    rw [filter_le_append_filter_lt hsorted]

/-- Of two symbols of a text the later one lies behind the earlier one or inside it. -/
theorem Laid.pairwise {lines : Nat} {symbols : List Symbol} (h : Laid lines [] symbols) :
    symbols.Pairwise fun s t => s.span.EndsBefore t.span ∨ s.span.Contains t.span := by
  apply List.pairwise_iff_getElem.mpr
  intro i j hi hj hij
  have hs := List.getElem?_eq_getElem hi
  have ht := List.getElem?_eq_getElem hj
  exact (h.apart i j _ _ hij hs ht).imp_right (h.contains_of_encloses hij hs ht)

def decisionLines (file : SourceFile) (bytes : ByteArray) : List Nat :=
  if isBinary bytes then []
  else Reader.decisionLines file .start 1 (Text.lines (Utf8.lossy bytes).toList)

section Text

variable {file : SourceFile} {bytes : ByteArray}

theorem counted_ofBytes (file : SourceFile) (bytes : ByteArray) :
    ∃ lines, Laid lines [] (ofBytes file bytes).symbols ∧
      Counted lines (decisionLines file bytes) [] (ofBytes file bytes).symbols := by
  unfold ofBytes decisionLines
  by_cases hbinary : isBinary bytes = true
  · rw [if_pos hbinary, if_pos hbinary]
    exact ⟨0, Laid.start, Counted.start⟩
  · rw [if_neg hbinary, if_neg hbinary]
    exact ⟨_, Laid.ofLines file _, Counted.ofLines file _⟩

theorem cyclomatic_ofBytes (h : (ofBytes file bytes).symbols ≠ []) :
    ((ofBytes file bytes).metrics bytes).cyclomatic =
      complexityOf (decisionLines file bytes).length := by
  by_cases hbinary : isBinary bytes = true
  · rw [ofBytes, if_pos hbinary] at h
    exact absurd rfl h
  · rw [ofBytes, decisionLines, metrics, if_neg hbinary, if_neg hbinary, if_neg hbinary]
    have hdecisions := Reader.decisions_readAll file .start 1 (Text.lines (Utf8.lossy bytes).toList)
    exact congrArg complexityOf (hdecisions.trans (Nat.zero_add _))

/-- The decision points of symbols none of which lies inside another one make up a part of those of
the text. -/
theorem linesOf_apart {chosen : List Symbol}
    (hchosen : chosen.Sublist (ofBytes file bytes).symbols)
    (hapart : chosen.Pairwise fun outer inner => ¬ outer.span.Contains inner.span) :
    (chosen.flatMap fun s => s.linesOf (decisionLines file bytes)).Sublist
      (decisionLines file bytes) := by
  obtain ⟨lines, hlaid, hcounted⟩ := counted_ofBytes file bytes
  have hbefore : chosen.Pairwise fun s t => s.span.EndsBefore t.span := by
    refine ((hlaid.pairwise.sublist hchosen).and hapart).imp ?_
    rintro s t ⟨hbefore | hcontains, hnot⟩
    · exact hbefore
    · exact absurd hcontains hnot
  have hspans := flatMap_among_sublist hcounted.sorted (List.pairwise_map.mpr hbefore)
  rw [List.flatMap_map] at hspans
  refine (List.Sublist.flatMap_right chosen ?_).trans hspans
  intro s _
  exact s.linesOf_sublist _

end Text

end Outline

end CodeAtlas
