import CodeAtlas.Text.Blank
import CodeAtlas.Total
/-!
Cutting, joining and replacing over `List Char`, and the same operations on strings where a
caller works with whole names. `fields` of a text joined again with the separator give the text
back (`join_fields`).
-/
namespace CodeAtlas.Text

/-- The parts of a text between the characters that satisfy `p`; there is always one more part
than there are such characters. -/
def fieldsBy (p : Char → Bool) : List Char → List (List Char)
  | [] => [[]]
  | c :: rest =>
    if p c then [] :: fieldsBy p rest
    else match fieldsBy p rest with
      | [] => [[c]]
      | part :: parts => (c :: part) :: parts

def fields (sep : Char) (s : List Char) : List (List Char) :=
  fieldsBy (· == sep) s

def join (sep : List Char) : List (List Char) → List Char
  | [] => []
  | [part] => part
  | part :: parts => part ++ sep ++ join sep parts

theorem fieldsBy_ne_nil (p : Char → Bool) (s : List Char) : fieldsBy p s ≠ [] := by
  cases s with
  | nil => simp [fieldsBy]
  | cons c rest =>
    simp only [fieldsBy]
    split
    · simp
    · split <;> simp

/-- Joining the fields with their separator restores the text. -/
theorem join_fields (sep : Char) (s : List Char) : join [sep] (fields sep s) = s := by
  induction s with
  | nil => rfl
  | cons c rest ih =>
    unfold fields at ih ⊢
    have hne := fieldsBy_ne_nil (· == sep) rest
    revert ih hne
    rw [fieldsBy]
    generalize fieldsBy (· == sep) rest = parts
    intro ih hne
    match parts, hne with
    | [part], _ =>
      by_cases h : c = sep
      · subst h; simpa [join] using ih
      · simpa [h, join] using ih
    | part :: next :: more, _ =>
      by_cases h : c = sep
      · subst h; simpa [join] using ih
      · simpa [h, join] using ih

def after? : List Char → List Char → Option (List Char)
  | [], s => some s
  | _ :: _, [] => none
  | h :: head, c :: s => if h = c then after? head s else none

theorem after?_eq_some_iff {head s rest : List Char} :
    after? head s = some rest ↔ s = head ++ rest := by
  induction head generalizing s with
  | nil => simp [after?, eq_comm]
  | cons h head ih =>
    cases s with
    | nil => simp [after?]
    | cons c s =>
      by_cases hc : h = c
      · subst hc; simp [after?, ih]
      · simp [after?, hc, Ne.symm hc]

def before? (tail s : List Char) : Option (List Char) :=
  (after? tail.reverse s.reverse).map List.reverse

theorem before?_eq_some_iff {tail s rest : List Char} :
    before? tail s = some rest ↔ s = rest ++ tail := by
  simp only [before?, Option.map_eq_some_iff, after?_eq_some_iff]
  constructor
  · rintro ⟨r, hr, rfl⟩
    have := congrArg List.reverse hr
    simpa using this
  · rintro rfl
    exact ⟨rest.reverse, by simp, by simp⟩

def dropEnds (tail : List Char) (s : List Char) : List Char :=
  match before? tail s with
  | some rest => if rest.length < s.length then dropEnds tail rest else s
  | none => s
termination_by s.length

def splitOnce? (sep : List Char) : List Char → Option (List Char × List Char)
  | [] => if sep.isEmpty then some ([], []) else none
  | c :: rest =>
    match after? sep (c :: rest) with
    | some tail => some ([], tail)
    | none => (splitOnce? sep rest).map fun (head, tail) => (c :: head, tail)

def holds (part s : List Char) : Bool :=
  (splitOnce? part s).isSome

def upTo (sep s : List Char) : List Char :=
  match splitOnce? sep s with
  | some (head, _) => head
  | none => s

/-- Replaces each occurrence of the two characters `a`, `b` in a row by `r`, from the left and
without overlap. -/
def replacePair (a b r : Char) : List Char → List Char
  | c :: d :: rest =>
    if c = a ∧ d = b then r :: replacePair a b r rest else c :: replacePair a b r (d :: rest)
  | s => s

def replaceChar (a r : Char) (s : List Char) : List Char :=
  s.map fun c => if c = a then r else c

/-- The lines of a text: a newline ends a line together with one carriage return before it, and a
final newline opens no further line. -/
def lines (s : List Char) : List (List Char) :=
  let parts := fields '\n' s
  let closed := parts.dropLast.map fun part => (before? ['\r'] part).getD part
  match parts.getLast? with
  | none => []
  | some last => if last.isEmpty then closed else closed ++ [last]

def lower (s : String) : String :=
  String.ofList (s.toList.map Char.toLower)

def byteLength (s : List Char) : Nat :=
  total Char.utf8Size s

def begins (head : String) (s : String) : Bool :=
  head.toList.isPrefixOf s.toList

def ends (tail : String) (s : String) : Bool :=
  (before? tail.toList s.toList).isSome

def dotJoin (parts : List String) : String :=
  ".".intercalate parts

def dotParts (s : String) : List String :=
  (fields '.' s.toList).map String.ofList

end CodeAtlas.Text
