import CodeAtlas.Proofs.Naming.Empty
import CodeAtlas.Proofs.Text.Pairs
/-!
The steps of a name that is written in pieces. Once its separators are written as dots, no other
separator is left (`isDotted_dotSeparated`). Dots and blanks around the pieces add nothing to the
steps (`stepsIn_append_gap`), and every other character of the text stands in one of them
(`weight_nameSteps`).
-/
namespace CodeAtlas

namespace Text

theorem trim_cons {c : Char} (hc : isBlank c = true) (s : List Char) : trim (c :: s) = trim s := by
  rw [trim, trim, trimWhile, trimWhile, List.dropWhile_cons, if_pos hc]

theorem trim_append_singleton {c : Char} (hc : isBlank c = true) (s : List Char) :
    trim (s ++ [c]) = trim s := by
  unfold trim trimWhile trimEndWhile
  rw [List.dropWhile_append]
  cases hs : s.dropWhile isBlank with
  | nil => simp [hc]
  | cons d rest => simp [hc]

theorem trim_of_not_blank {s : List Char} (h : ∀ c ∈ s, isBlank c = false) : trim s = s := by
  have hdrop (t : List Char) (ht : ∀ c ∈ t, isBlank c = false) : t.dropWhile isBlank = t := by
    cases t with
    | nil => rfl
    | cons c t => rw [List.dropWhile_cons, ht c List.mem_cons_self, if_neg Bool.false_ne_true]
  have hreverse : ∀ c ∈ s.reverse, isBlank c = false := fun c hc => h c (List.mem_reverse.mp hc)
  rw [trim, trimWhile, hdrop s h, trimEndWhile, hdrop _ hreverse, List.reverse_reverse]

end Text

/-- The end of a text is no half of a separator. -/
def EndsApart (s : List Char) : Prop :=
  ∀ c ∈ s.getLast?, c ≠ ':' ∧ c ≠ '-'

/-- The beginning of a text is no half of a separator. -/
def BeginsApart (s : List Char) : Prop :=
  ∀ c ∈ s.head?, c ≠ ':' ∧ c ≠ '>'

theorem endsApart_nil : EndsApart [] :=
  fun _ hc => nomatch hc

theorem beginsApart_nil : BeginsApart [] :=
  fun _ hc => nomatch hc

/-- The separators of two texts that make none where they meet are those of both. -/
theorem dotSeparated_append {s t : List Char} (h : EndsApart s ∨ BeginsApart t) :
    dotSeparated (s ++ t) = dotSeparated s ++ dotSeparated t := by
  have hcolons : s.getLast? ≠ some ':' ∨ t.head? ≠ some ':' :=
    h.imp (fun hs hlast => (hs ':' hlast).1 rfl) fun ht hhead => (ht ':' hhead).1 rfl
  have harrow : (Text.replacePair ':' ':' '.' s).getLast? ≠ some '-' ∨
      (Text.replacePair ':' ':' '.' t).head? ≠ some '>' := by
    refine h.imp (fun hs hlast => ?_) fun ht hhead => ?_
    · rcases Text.getLast?_replacePair ':' ':' '.' s with heq | heq
      · rw [heq] at hlast
        cases hlast
      · exact (hs '-' (heq ▸ hlast)).2 rfl
    · rcases Text.head?_replacePair ':' ':' '.' t with heq | heq
      · rw [heq] at hhead
        cases hhead
      · exact (ht '>' (heq ▸ hhead)).2 rfl
  unfold dotSeparated
  rw [Text.replacePair_append _ hcolons, Text.replacePair_append _ harrow, Text.replaceChar,
    List.map_append]
  rfl

/-- What belongs to no separator stays. -/
theorem mem_dotSeparated {c : Char} {s : List Char} (h : c ∈ s) (hc : c ∉ [':', '-', '>', '/']) :
    c ∈ dotSeparated s := by
  simp only [List.mem_cons, List.not_mem_nil, or_false, not_or] at hc
  obtain ⟨hcolon, hdash, hangle, hslash⟩ := hc
  have hkept := Text.mem_replacePair '.' (Text.mem_replacePair '.' h hcolon hcolon) hdash hangle
  exact List.mem_map.mpr ⟨c, hkept, if_neg hslash⟩

/-- Colons between two texts are a dot between them. -/
theorem dotSeparated_colons {s t : List Char} (hs : EndsApart s) (ht : BeginsApart t) :
    dotSeparated (s ++ ':' :: ':' :: t) = dotSeparated s ++ '.' :: dotSeparated t := by
  have hcolons : dotSeparated ([':', ':'] ++ t) = _ := dotSeparated_append (.inr ht)
  rw [dotSeparated_append (.inl hs)]
  exact congrArg (dotSeparated s ++ ·) hcolons

/-- Dots are the only separators of a text. -/
structure IsDotted (s : List Char) : Prop where
  colons : Text.NoPair ':' ':' s
  arrows : Text.NoPair '-' '>' s
  slash : '/' ∉ s

namespace IsDotted

variable {s : List Char}

theorem of_notMem (hcolon : ':' ∉ s) (hdash : '-' ∉ s) (hslash : '/' ∉ s) : IsDotted s :=
  ⟨Text.noPair_of_notMem ':' hcolon, Text.noPair_of_notMem '>' hdash, hslash⟩

theorem mono {t : List Char} (h : IsDotted t) (hs : s <:+: t) : IsDotted s :=
  ⟨h.colons.mono hs, h.arrows.mono hs, fun hslash => h.slash (hs.subset hslash)⟩

/-- Where dots are the only separators, nothing is replaced. -/
theorem dotSeparated_eq (h : IsDotted s) : dotSeparated s = s := by
  have hkept : ∀ c ∈ s, (if c = '/' then '.' else c) = id c := fun c hc =>
    if_neg fun heq : c = '/' => h.slash (heq ▸ hc)
  rw [dotSeparated, h.colons.replacePair_eq, h.arrows.replacePair_eq, Text.replaceChar,
    List.map_congr_left hkept, List.map_id]

end IsDotted

/-- No replacement brings back a separator that an earlier one has taken away. -/
theorem isDotted_dotSeparated (s : List Char) : IsDotted (dotSeparated s) where
  colons := ((Text.noPair_replacePair (by decide) (by decide) s).replacePair (by decide) (by decide)
    '-' '>').replaceChar (by decide) (by decide) '/'
  arrows := (Text.noPair_replacePair (by decide) (by decide) _).replaceChar (by decide) (by decide)
    '/'
  slash := by
    intro hslash
    obtain ⟨c, -, hc⟩ := List.mem_map.mp hslash
    split at hc
    · exact absurd hc (by decide)
    · contradiction

def stepsIn (s : List Char) : List (List Char) :=
  ((Text.fields '.' s).map Text.trim).filter fun step => !step.isEmpty

theorem nameSteps_eq (s : List Char) : nameSteps s = stepsIn (dotSeparated s) :=
  rfl

theorem stepsIn_append_dot (s t : List Char) :
    stepsIn (s ++ '.' :: t) = stepsIn s ++ stepsIn t := by
  rw [stepsIn, Text.fields_append_cons, List.map_append, List.filter_append]
  rfl

theorem stepsIn_of_notMem {s : List Char} (h : '.' ∉ s) :
    stepsIn s = if Text.trim s = [] then [] else [Text.trim s] := by
  rw [stepsIn, Text.fields_of_notMem h, List.map_singleton, List.filter_singleton]
  cases Text.trim s with
  | nil => rfl
  | cons c rest => rfl

theorem nameSteps_colons {s t : List Char} (hs : EndsApart s) (ht : BeginsApart t) :
    nameSteps (s ++ ':' :: ':' :: t) = nameSteps s ++ nameSteps t := by
  rw [nameSteps_eq, dotSeparated_colons hs ht, stepsIn_append_dot, nameSteps_eq, nameSteps_eq]

/-- Whether a character stands between the steps of a name and in none of them. -/
def isGap (c : Char) : Bool :=
  c == '.' || Text.isBlank c

theorem stepsIn_cons_gap {c : Char} (hc : isGap c = true) (s : List Char) :
    stepsIn (c :: s) = stepsIn s := by
  by_cases hdot : c = '.'
  · rw [hdot]
    exact stepsIn_append_dot [] s
  · have hblank : Text.isBlank c = true := by simpa [isGap, hdot] using hc
    obtain ⟨part, parts, hfields⟩ := List.exists_cons_of_ne_nil (Text.fields_ne_nil '.' s)
    unfold stepsIn
    rw [Text.fields_cons, if_neg hdot, hfields, List.modifyHead_cons, List.map_cons,
      List.map_cons, Text.trim_cons hblank]

/-- A dot or blank at the end adds no step. -/
theorem stepsIn_append_singleton {c : Char} (hc : isGap c = true) (s : List Char) :
    stepsIn (s ++ [c]) = stepsIn s := by
  by_cases hdot : c = '.'
  · rw [hdot, stepsIn_append_dot]
    exact List.append_nil _
  · have hblank : Text.isBlank c = true := by simpa [isGap, hdot] using hc
    have hlast {back : List Char} (hback : '.' ∉ back) :
        stepsIn (back ++ [c]) = stepsIn back := by
      have hmore : '.' ∉ back ++ [c] := by simp [hback, Ne.symm hdot]
      rw [stepsIn_of_notMem hmore, stepsIn_of_notMem hback, Text.trim_append_singleton hblank]
    rcases Text.notMem_or_eq_append_last '.' s with hs | ⟨front, back, rfl, hback⟩
    · exact hlast hs
    · rw [List.append_assoc, List.cons_append, stepsIn_append_dot, stepsIn_append_dot,
        hlast hback]

/-- Dots and blanks in front of a name and behind it add no step. -/
theorem stepsIn_gap_append {gap : List Char} (h : ∀ c ∈ gap, isGap c = true) (s : List Char) :
    stepsIn (gap ++ s) = stepsIn s := by
  induction gap with
  | nil => rfl
  | cons c gap ih =>
    rw [List.cons_append, stepsIn_cons_gap (h c List.mem_cons_self),
      ih fun d hd => h d (List.mem_cons_of_mem c hd)]

theorem stepsIn_append_gap {gap : List Char} (h : ∀ c ∈ gap, isGap c = true) (s : List Char) :
    stepsIn (s ++ gap) = stepsIn s := by
  induction gap generalizing s with
  | nil => rw [List.append_nil]
  | cons c gap ih =>
    rw [← List.singleton_append, ← List.append_assoc,
      ih (fun d hd => h d (List.mem_cons_of_mem c hd)),
      stepsIn_append_singleton (h c List.mem_cons_self)]

theorem gap_of_not_hasStep {s : List Char} (h : ¬ HasStep s) :
    ∀ c ∈ dotSeparated s, isGap c = true := by
  intro c hc
  by_contra hgap
  have hsolid : c ≠ '.' ∧ Text.isBlank c = false := by simpa [isGap] using hgap
  exact h ⟨c, hc, hsolid⟩

/-- A text without steps adds none to what stands behind or in front of it. -/
theorem nameSteps_append_of_not_hasStep {s t : List Char} (h : EndsApart s ∨ BeginsApart t)
    (ht : ¬ HasStep t) : nameSteps (s ++ t) = nameSteps s := by
  rw [nameSteps_eq, dotSeparated_append h, stepsIn_append_gap (gap_of_not_hasStep ht),
    nameSteps_eq]

theorem nameSteps_of_not_hasStep_append {s t : List Char} (h : EndsApart s ∨ BeginsApart t)
    (hs : ¬ HasStep s) : nameSteps (s ++ t) = nameSteps t := by
  rw [nameSteps_eq, dotSeparated_append h, stepsIn_gap_append (gap_of_not_hasStep hs),
    nameSteps_eq]

section Weight

def weight (s : List Char) : Nat :=
  s.countP fun c => !isGap c

theorem weight_append (s t : List Char) : weight (s ++ t) = weight s + weight t :=
  List.countP_append

theorem weight_of_gap {s : List Char} (h : ∀ c ∈ s, isGap c = true) : weight s = 0 := by
  rw [weight, List.countP_eq_zero]
  intro c hc
  simp [h c hc]

theorem weight_trim (s : List Char) : weight (Text.trim s) = weight s := by
  obtain ⟨lead, trail, hlead, htrail, heq⟩ := Text.exists_eq_trim s
  have hgap {pad : List Char} (hpad : ∀ c ∈ pad, Text.isBlank c = true) : weight pad = 0 :=
    weight_of_gap fun c hc => by rw [isGap, hpad c hc, Bool.or_true]
  conv_rhs => rw [heq]
  rw [weight_append, weight_append, hgap hlead, hgap htrail, Nat.zero_add, Nat.add_zero]

/-- Cutting at the dots loses dots only. -/
theorem weight_fields (s : List Char) : weight (Text.fields '.' s).flatten = weight s := by
  induction s with
  | nil => rfl
  | cons c s ih =>
    rw [Text.fields_cons]
    by_cases hc : c = '.'
    · rw [if_pos hc, List.flatten_cons, List.nil_append, ih, hc]
      rfl
    · obtain ⟨part, parts, hfields⟩ := List.exists_cons_of_ne_nil (Text.fields_ne_nil '.' s)
      rw [hfields] at ih
      rw [if_neg hc, hfields, List.modifyHead_cons, List.flatten_cons, List.cons_append,
        ← List.singleton_append, weight_append, ← List.flatten_cons, ih, ← weight_append,
        List.singleton_append]

/-- Every character that is neither a dot nor a blank stands in one of the steps. -/
theorem weight_stepsIn (s : List Char) : weight (stepsIn s).flatten = weight s := by
  -- Trimming takes blanks away and the filter empty fields; both weigh nothing.
  have hkept (parts : List (List Char)) :
      weight ((parts.map Text.trim).filter fun step => !step.isEmpty).flatten =
        weight parts.flatten := by
    induction parts with
    | nil => rfl
    | cons part parts ih =>
      rw [List.map_cons, List.filter_cons, List.flatten_cons, weight_append, ← ih,
        ← weight_trim part]
      cases htrim : Text.trim part with
      | nil => exact (Nat.zero_add _).symm
      | cons c rest => exact weight_append _ _
  rw [stepsIn, hkept, weight_fields]

theorem weight_nameSteps (s : List Char) :
    weight (nameSteps s).flatten = weight (dotSeparated s) :=
  weight_stepsIn _

/-- Colons between two texts stand in no step. -/
theorem weight_colons {s t : List Char} (hs : EndsApart s) (ht : BeginsApart t) :
    weight (dotSeparated (s ++ ':' :: ':' :: t)) =
      weight (dotSeparated s) + weight (dotSeparated t) := by
  rw [dotSeparated_colons hs ht, weight_append]
  rfl

theorem weight_pos_iff (s : List Char) : 0 < weight (dotSeparated s) ↔ HasStep s := by
  rw [weight, List.countP_pos_iff, HasStep]
  simp [isGap]

end Weight

section Joined

theorem Text.join_eq_intercalate (sep : List Char) (parts : List (List Char)) :
    Text.join sep parts = sep.intercalate parts := by
  match parts with
  | [] => rfl
  | [part] => exact List.intercalate_singleton.symm
  | part :: next :: rest =>
    rw [Text.join.eq_3 _ _ _ (List.cons_ne_nil next rest), Text.join_eq_intercalate sep,
      List.intercalate_cons_cons, List.append_assoc]

def stepsOf (s : String) : List String :=
  (nameSteps s.toList).map String.ofList

theorem stepsOf_plain (s : String) : PlainNames (stepsOf s) := by
  intro name hname
  obtain ⟨step, hstep, rfl⟩ := List.mem_map.mp hname
  obtain ⟨part, hpart, rfl⟩ := List.mem_map.mp (List.mem_filter.mp hstep).1
  refine ⟨Text.ofList_ne_empty_iff.mpr (ne_nil_of_mem_nameSteps hstep), fun hdot => ?_⟩
  rw [String.toList_ofList] at hdot
  exact Text.sep_notMem_of_mem_fields hpart (Text.mem_of_mem_trim hdot)

theorem dotted_eq_dotJoin (s : String) : dotted s = Text.dotJoin (stepsOf s) := by
  apply String.ext
  have hdot : ".".toList = ['.'] := rfl
  have hid : String.toList ∘ String.ofList = id := funext fun _ => String.toList_ofList
  rw [dotted, String.toList_ofList, Text.dotJoin, String.toList_intercalate, stepsOf, List.map_map,
    hid, List.map_id, hdot, Text.join_eq_intercalate]

theorem dotParts_dotted {s : String} (h : stepsOf s ≠ []) :
    Text.dotParts (dotted s) = stepsOf s := by
  rw [dotted_eq_dotJoin, Text.dotParts_dotJoin h fun part hpart => (stepsOf_plain s part hpart).2]

theorem PlainNames.append {names more : List String} (h : PlainNames names)
    (h' : PlainNames more) : PlainNames (names ++ more) := fun s hs =>
  (List.mem_append.mp hs).elim (h s) (h' s)

/-- Plain names can be read off the text that they are joined to. -/
theorem PlainNames.nameParts_dotJoin {names : List String} (h : PlainNames names) :
    Text.nameParts [Text.dotJoin names] = names := by
  by_cases hne : names = []
  · rw [hne]
    rfl
  · rw [Text.nameParts_dotJoin hne, Text.nameParts_of_plain h]

theorem PlainNames.dotJoin_inj {names names' : List String} (h : PlainNames names)
    (h' : PlainNames names') : Text.dotJoin names = Text.dotJoin names' ↔ names = names' := by
  constructor
  · intro heq
    rw [← h.nameParts_dotJoin, heq, h'.nameParts_dotJoin]
  · exact congrArg Text.dotJoin

end Joined

section Names

def isNameChar (c : Char) : Bool :=
  !Text.isBlank c && !(['.', '/', ':', '-', '>', '<'].contains c)

def IsName (name : String) : Prop :=
  name ≠ "" ∧ ∀ c ∈ name.toList, isNameChar c = true

instance (name : String) : Decidable (IsName name) :=
  decidable_of_iff (name ≠ "" ∧ name.toList.all isNameChar = true)
    (and_congr_right' List.all_eq_true)

variable {name : String}

theorem isNameChar_spec {c : Char} (h : isNameChar c = true) :
    Text.isBlank c = false ∧ c ≠ '.' ∧ c ≠ '/' ∧ c ≠ ':' ∧ c ≠ '-' ∧ c ≠ '>' ∧ c ≠ '<' := by
  simpa [isNameChar] using h

theorem IsName.dot_notMem (h : IsName name) : '.' ∉ name.toList :=
  fun hdot => (isNameChar_spec (h.2 '.' hdot)).2.1 rfl

theorem IsName.not_blank (h : IsName name) : ∀ c ∈ name.toList, Text.isBlank c = false :=
  fun c hc => (isNameChar_spec (h.2 c hc)).1

theorem IsName.dotSeparated_eq (h : IsName name) : dotSeparated name.toList = name.toList := by
  have hcolon : ':' ∉ name.toList := fun hc => (isNameChar_spec (h.2 _ hc)).2.2.2.1 rfl
  have hdash : '-' ∉ name.toList := fun hc => (isNameChar_spec (h.2 _ hc)).2.2.2.2.1 rfl
  have hslash : '/' ∉ name.toList := fun hc => (isNameChar_spec (h.2 _ hc)).2.2.1 rfl
  exact IsDotted.dotSeparated_eq (.of_notMem hcolon hdash hslash)

theorem IsName.toList_ne_nil (h : IsName name) : name.toList ≠ [] :=
  fun hnil => h.1 (String.toList_eq_nil_iff.mp hnil)

theorem IsName.stepsIn_eq (h : IsName name) : stepsIn name.toList = [name.toList] := by
  have htrim : Text.trim name.toList = name.toList := Text.trim_of_not_blank h.not_blank
  rw [stepsIn_of_notMem h.dot_notMem, htrim, if_neg h.toList_ne_nil]

theorem IsName.nameSteps_eq (h : IsName name) : nameSteps name.toList = [name.toList] := by
  rw [CodeAtlas.nameSteps_eq, h.dotSeparated_eq, h.stepsIn_eq]

theorem IsName.stepsOf_eq (h : IsName name) : stepsOf name = [name] := by
  rw [stepsOf, h.nameSteps_eq, List.map_singleton, String.ofList_toList]

theorem IsName.dotted_eq (h : IsName name) : dotted name = name := by
  rw [dotted_eq_dotJoin, h.stepsOf_eq, Text.dotJoin_singleton]

theorem IsName.beginsApart (h : IsName name) : BeginsApart name.toList := by
  intro c hc
  obtain ⟨-, -, -, hcolon, -, hangle, -⟩ := isNameChar_spec (h.2 c (List.mem_of_mem_head? hc))
  exact ⟨hcolon, hangle⟩

theorem IsName.endsApart (h : IsName name) : EndsApart name.toList := by
  intro c hc
  obtain ⟨-, -, -, hcolon, hdash, -⟩ := isNameChar_spec (h.2 c (List.mem_of_getLast? hc))
  exact ⟨hcolon, hdash⟩

end Names

end CodeAtlas
