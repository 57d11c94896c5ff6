import CodeAtlas.Grammar.Scala
import CodeAtlas.Proofs.Text.Filler
import CodeAtlas.Proofs.Text.Split
/-!
The clauses of an import as they are written, with blanks between their words, and the paths that
they name. Their texts hold the signs that they are cut at nowhere else (`Clause.text`, `cuts`), and
begin and end with a character that trimming leaves (`Clause.trimmed`).
-/
namespace CodeAtlas.Grammar.Scala

section Clauses

structure Gap where
  text : List Char
  blank : ∀ c ∈ text, Text.isBlank c = true

/-- Whether a character may stand in an identifier: it belongs to no sign of a clause. -/
def isIdentifierChar (c : Char) : Bool :=
  isNameChar c && !([',', '=', '\x7b', '\x7d'].contains c)

structure Identifier where
  name : String
  ne_wildcard : name ≠ "_" ∧ name ≠ "*"
  ne_empty : name ≠ ""
  plain : ∀ c ∈ name.toList, isIdentifierChar c = true

inductive Path
  | one (step : Identifier)
  | step (step : Identifier) (rest : Path)

inductive Wildcard
  | underscore
  | star

inductive Ending
  | none
  | wildcard (w : Wildcard)
  | renamed (other : Identifier)

/-- One entry between the braces; a renamed member has an arrow with blanks around or ` as `. -/
inductive Selector
  | member (name : Identifier)
  | arrow (name : Identifier) (before after : Gap) (other : Identifier)
  | renamed (name other : Identifier)
  | wildcard (w : Wildcard)

structure Placed where
  lead : Gap
  selector : Selector
  trail : Gap

inductive Clause
  | plain (path : Path) (ending : Ending)
  | list (outer : Path) (brace : Gap) (first : Placed) (rest : List Placed)

structure Further where
  before : Gap
  after : Gap
  clause : Clause

structure Import where
  lead : Gap
  first : Clause
  rest : List Further
  trail : Gap

namespace Path

def names : Path → List (List Char)
  | .one x => [x.name.toList]
  | .step x rest => x.name.toList :: rest.names

def text : Path → List Char
  | .one x => x.name.toList
  | .step x rest => x.name.toList ++ '.' :: rest.text

end Path

def Wildcard.sign : Wildcard → Char
  | .underscore => '_'
  | .star => '*'

def Ending.text : Ending → List Char
  | .none => []
  | .wildcard w => ['.', w.sign]
  | .renamed x => " as ".toList ++ x.name.toList

def Selector.text : Selector → List Char
  | .member x => x.name.toList
  | .arrow x before after y =>
    x.name.toList ++ before.text ++ "=>".toList ++ after.text ++ y.name.toList
  | .renamed x y => x.name.toList ++ " as ".toList ++ y.name.toList
  | .wildcard w => [w.sign]

def Placed.text (s : Placed) : List Char :=
  s.lead.text ++ s.selector.text ++ s.trail.text

def Clause.text : Clause → List Char
  | .plain path ending => path.text ++ ending.text
  | .list outer brace first rest =>
    outer.text ++ '.' :: brace.text ++ '\x7b' :: Text.join [','] ((first :: rest).map Placed.text)
      ++ ['\x7d']

def Further.text (f : Further) : List Char :=
  f.before.text ++ ',' :: f.after.text ++ f.clause.text

def Import.text (i : Import) : String :=
  String.ofList ("import".toList ++ i.lead.text ++ i.first.text ++ i.rest.flatMap Further.text ++
    i.trail.text)

/-- The path that a selector names behind the path of its list; a wildcard names the list. -/
def Selector.path (outer : Path) : Selector → List Char
  | .member x | .arrow x _ _ _ | .renamed x _ => outer.text ++ '.' :: x.name.toList
  | .wildcard _ => outer.text

def Clause.selectors : Clause → List Placed
  | .plain _ _ => []
  | .list _ _ first rest => first :: rest

def Clause.paths : Clause → List (List Char)
  | .plain path _ => [path.text]
  | .list outer _ first rest => (first :: rest).map fun s => s.selector.path outer

def Import.clauses (i : Import) : List Clause :=
  i.first :: i.rest.map Further.clause

def Import.paths (i : Import) : List String :=
  (i.clauses.flatMap Clause.paths).map String.ofList

def Selector.word : Selector → List Char
  | .member x | .arrow x _ _ _ | .renamed x _ => x.name.toList
  | .wildcard w => [w.sign]

/-- What stands behind the word of a selector, up to an arrow. -/
def Placed.next (s : Placed) : List Char :=
  match s.selector with
  | .member _ | .wildcard _ => s.trail.text
  | .arrow _ before _ _ => before.text
  | .renamed _ y => " as ".toList ++ y.name.toList ++ s.trail.text

/-- A member `as` with a space on both sides reads as the sign of an alias. -/
def Placed.Hidden (s : Placed) : Prop :=
  s.selector.word = "as".toList ∧ s.lead.text.getLast? = some ' ' ∧ s.next.head? = some ' '

instance (s : Placed) : Decidable s.Hidden :=
  inferInstanceAs (Decidable (_ ∧ _))

end Clauses

section Characters

theorem isNameChar_of_isIdentifierChar {c : Char} (h : isIdentifierChar c = true) :
    isNameChar c = true :=
  (Bool.and_eq_true_iff.mp h).1

/-- A blank is no sign. -/
theorem Gap.apart (g : Gap) {c : Char} (hc : Text.isBlank c = false) : c ∉ g.text := fun hmem =>
  Bool.false_ne_true (hc.symm.trans (g.blank c hmem))

variable (x : Identifier)

theorem Identifier.isName : IsName x.name :=
  ⟨x.ne_empty, fun c hc => isNameChar_of_isIdentifierChar (x.plain c hc)⟩

theorem Identifier.apart {c : Char} (hc : isIdentifierChar c = false) : c ∉ x.name.toList :=
  fun hmem => Bool.false_ne_true (hc.symm.trans (x.plain c hmem))

theorem Identifier.not_blank : ∀ c ∈ x.name.toList, Text.isBlank c = false :=
  x.isName.not_blank

theorem Identifier.trimmed : Text.Trimmed x.name.toList :=
  Text.trimmed_of_not_blank x.isName.toList_ne_nil x.not_blank

/-- A path holds characters of identifiers and dots. -/
theorem Path.apart (p : Path) {c : Char} (hc : isIdentifierChar c = false) (hdot : c ≠ '.') :
    c ∉ p.text := by
  induction p with
  | one x => exact x.apart hc
  | step x rest ih =>
    rw [Path.text, List.mem_append, List.mem_cons]
    rintro (hx | rfl | hrest)
    · exact x.apart hc hx
    · exact hdot rfl
    · exact ih hrest

theorem Path.trimmed (p : Path) : Text.Trimmed p.text := by
  induction p with
  | one x => exact x.trimmed
  | step x rest ih => exact x.trimmed.append ih ['.']

end Characters

section Paths

theorem Path.dotSeparated_append (p : Path) {s : List Char}
    (hs : ∀ c ∈ s, c ≠ ':' ∧ c ≠ '-' ∧ c ≠ '/') : dotSeparated (p.text ++ s) = p.text ++ s := by
  have hnot {c : Char} (hc : isIdentifierChar c = false) (hdot : c ≠ '.') (hcs : c ∉ s) :
      c ∉ p.text ++ s := fun hmem => (List.mem_append.mp hmem).elim (p.apart hc hdot) hcs
  apply IsDotted.dotSeparated_eq
  exact .of_notMem (hnot (by decide) (by decide) fun h => (hs _ h).1 rfl)
    (hnot (by decide) (by decide) fun h => (hs _ h).2.1 rfl)
    (hnot (by decide) (by decide) fun h => (hs _ h).2.2 rfl)

theorem Path.stepsIn_eq (p : Path) : stepsIn p.text = p.names := by
  induction p with
  | one x => exact x.isName.stepsIn_eq
  | step x rest ih =>
    rw [Path.text, stepsIn_append_dot, x.isName.stepsIn_eq, ih]
    rfl

theorem Path.join_names (p : Path) : Text.join ['.'] p.names = p.text := by
  induction p with
  | one x => rfl
  | step x rest ih =>
    have hne : rest.names ≠ [] := by cases rest <;> exact List.cons_ne_nil _ _
    rw [Path.names, Text.join.eq_3 _ _ _ hne, ih, Path.text, List.append_assoc,
      List.singleton_append]

/-- Dots and blanks behind a path change nothing in it. -/
theorem Path.dottedChars_append (p : Path) {gap : List Char} (hgap : ∀ c ∈ gap, isGap c = true) :
    dottedChars (p.text ++ gap) = p.text := by
  have hplain : ∀ c ∈ gap, c ≠ ':' ∧ c ≠ '-' ∧ c ≠ '/' := by
    intro c hc
    have hc := hgap c hc
    refine ⟨?_, ?_, ?_⟩ <;> rintro rfl <;> exact absurd hc (by decide)
  rw [dottedChars, nameSteps_eq, p.dotSeparated_append hplain, stepsIn_append_gap hgap,
    p.stepsIn_eq, p.join_names]

theorem Path.fields_eq (p : Path) : Text.fields '.' p.text = p.names := by
  induction p with
  | one x => exact Text.fields_of_notMem x.isName.dot_notMem
  | step x rest ih =>
    rw [Path.text, Text.fields_append_cons, Text.fields_of_notMem x.isName.dot_notMem, ih]
    rfl

theorem Identifier.ne_sign (x : Identifier) (w : Wildcard) : x.name.toList ≠ [w.sign] := by
  intro heq
  have hname : x.name = String.ofList [w.sign] := by rw [← heq, String.ofList_toList]
  cases w with
  | underscore => exact x.ne_wildcard.1 hname
  | star => exact x.ne_wildcard.2 hname

theorem Path.sign_notMem (p : Path) (w : Wildcard) : [w.sign] ∉ p.names := by
  induction p with
  | one x => exact fun h => x.ne_sign w (List.mem_singleton.mp h).symm
  | step x rest ih =>
    intro h
    rcases List.mem_cons.mp h with heq | h
    · exact x.ne_sign w heq.symm
    · exact ih h

/-- No path ends with a wildcard. -/
theorem Path.before?_wildcard (p : Path) (w : Wildcard) :
    Text.before? ['.', w.sign] p.text = none := by
  rw [Option.eq_none_iff_forall_not_mem]
  intro front hfront
  have htext : p.text = front ++ ['.', w.sign] := Text.before?_eq_some_iff.mp hfront
  have hdot : '.' ∉ [w.sign] := by cases w <;> decide
  apply p.sign_notMem w
  rw [← p.fields_eq, htext, Text.fields_append_cons, Text.fields_of_notMem hdot]
  exact List.mem_append_right _ (List.mem_singleton.mpr rfl)

end Paths

section Cuts

def cuts : List Char :=
  [',', '\x7b', '\x7d']

variable {c : Char}

theorem cuts_spec (hc : c ∈ cuts) : Text.isBlank c = false ∧ isIdentifierChar c = false ∧
    c ∉ ['.', '_', '*'] ∧ c ∉ "=>".toList ∧ c ∉ " as ".toList := by
  simp only [cuts, List.mem_cons, List.not_mem_nil, or_false] at hc
  rcases hc with rfl | rfl | rfl <;> decide

theorem Wildcard.sign_mem (w : Wildcard) : w.sign ∈ ['.', '_', '*'] := by
  cases w <;> decide

theorem Path.cut_notMem (p : Path) (hc : c ∈ cuts) : c ∉ p.text := by
  obtain ⟨-, hplain, hsign, -⟩ := cuts_spec hc
  exact p.apart hplain fun hdot => hsign (hdot ▸ List.mem_cons_self)

/-- The end of a clause holds none of the characters that cut it. -/
theorem Ending.cut_notMem (e : Ending) (hc : c ∈ cuts) : c ∉ e.text := by
  obtain ⟨-, hplain, hsign, -, has⟩ := cuts_spec hc
  cases e with
  | none => exact List.not_mem_nil
  | wildcard w =>
    have hw : c ≠ w.sign := fun heq => hsign (heq ▸ w.sign_mem)
    have hdot : c ≠ '.' := fun heq => hsign (heq ▸ List.mem_cons_self)
    simp [Ending.text, hw, hdot]
  | renamed x =>
    rw [Ending.text, List.mem_append, not_or]
    exact ⟨has, x.apart hplain⟩

/-- A selector holds none of the characters that cut a clause. -/
theorem Placed.cut_notMem (s : Placed) (hc : c ∈ cuts) : c ∉ s.text := by
  obtain ⟨hblank, hplain, hsign, harrow, has⟩ := cuts_spec hc
  have hselector : c ∉ s.selector.text := by
    cases s.selector with
    | member x => exact x.apart hplain
    | arrow x before after y =>
      simp only [Selector.text, List.mem_append, not_or]
      exact ⟨⟨⟨⟨x.apart hplain, before.apart hblank⟩, harrow⟩, after.apart hblank⟩, y.apart hplain⟩
    | renamed x y =>
      simp only [Selector.text, List.mem_append, not_or]
      exact ⟨⟨x.apart hplain, has⟩, y.apart hplain⟩
    | wildcard w => exact fun hmem => hsign (List.mem_singleton.mp hmem ▸ w.sign_mem)
  simp only [Placed.text, List.mem_append, not_or]
  exact ⟨⟨s.lead.apart hblank, hselector⟩, s.trail.apart hblank⟩

theorem join_cut_notMem {c : Char} (hc : c ∈ cuts) (hcomma : c ≠ ',') (l : List Placed) :
    c ∉ Text.join [','] (l.map Placed.text) := by
  apply Text.notMem_join (by simpa using hcomma)
  intro part hpart
  obtain ⟨s, -, rfl⟩ := List.mem_map.mp hpart
  exact s.cut_notMem hc

end Cuts

section Ends

theorem Ending.trimmed_append (p : Path) (e : Ending) : Text.Trimmed (p.text ++ e.text) := by
  cases e with
  | none => exact (List.append_nil p.text).symm ▸ p.trimmed
  | wildcard w =>
    have hsign : Text.Trimmed [w.sign] := by cases w <;> exact ⟨⟨_, rfl, rfl⟩, _, rfl, rfl⟩
    exact p.trimmed.append hsign ['.']
  | renamed x => exact p.trimmed.append x.trimmed " as ".toList

theorem Clause.trimmed (k : Clause) : Text.Trimmed k.text := by
  cases k with
  | plain path ending => exact ending.trimmed_append path
  | list outer brace first rest =>
    have hclose : Text.Trimmed ['\x7d'] := ⟨⟨_, rfl, rfl⟩, _, rfl, rfl⟩
    have htrimmed := outer.trimmed.append hclose ('.' :: brace.text ++ '\x7b' ::
      Text.join [','] ((first :: rest).map Placed.text))
    simpa [Clause.text] using htrimmed

theorem trimmed_clauses (first : Clause) (rest : List Further) :
    Text.Trimmed (first.text ++ rest.flatMap Further.text) := by
  induction rest generalizing first with
  | nil => exact (List.append_nil first.text).symm ▸ first.trimmed
  | cons f rest ih =>
    have htrimmed := first.trimmed.append (ih f.clause) (f.before.text ++ ',' :: f.after.text)
    simpa [Further.text] using htrimmed

end Ends

end CodeAtlas.Grammar.Scala
