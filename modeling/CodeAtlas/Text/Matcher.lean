import CodeAtlas.Text.Blank
import CodeAtlas.Text.Letter
/-!
Text matchers. A matcher takes a place in a text to the places where a match may end, the
preferred one first, so that the first end of the first start is the match: alternatives are tried
in the order written and repetition prefers to go on.
-/
namespace CodeAtlas.Text

/-- A place inside a text: the character before it, the text after it with its length, and what
has been captured on the way to it. -/
structure Place where
  last : Option Char
  rest : List Char
  size : Nat
  groups : List (List Char)
  size_eq : size = rest.length

def Place.before (last : Option Char) (rest : List Char) : Place :=
  ⟨last, rest, rest.length, [], rfl⟩

/-- The ends of the matches from a place, in order of preference. -/
abbrev Matcher := Place → List Place

namespace Matcher

def step? (p : Char → Bool) (s : Place) : Option Place :=
  match s with
  | ⟨_, [], _, _, _⟩ => none
  | ⟨_, c :: rest, size, groups, h⟩ =>
    if p c then some ⟨some c, rest, size - 1, groups, by simp [h]⟩ else none

theorem step?_size {p : Char → Bool} {s t : Place} (h : step? p s = some t) :
    t.size < s.size := by
  obtain ⟨last, rest, size, groups, hs⟩ := s
  cases rest with
  | nil => simp [step?] at h
  | cons c rest =>
    simp only [step?] at h
    split at h
    · simp only [Option.some.injEq] at h
      subst h
      simp only [List.length_cons] at hs
      simp only
      omega
    · simp at h

def one (p : Char → Bool) : Matcher := fun s => (step? p s).toList

def empty : Matcher := fun s => [s]

def next (p q : Matcher) : Matcher := fun s => (p s).flatMap q

def orElse (p q : Matcher) : Matcher := fun s => p s ++ q s

/-- The ends of any number of `p`, those of more repetitions first, in front of other places. -/
def manyOnto (p : Matcher) (s : Place) (others : List Place) : List Place :=
  (p s).foldr (fun t found => if t.size < s.size then manyOnto p t found else found) (s :: others)
termination_by s.size

/-- Any number of `p`, as many as possible first; a repetition that takes nothing is not tried. -/
def many (p : Matcher) : Matcher := fun s => manyOnto p s []

def skip (p : Char → Bool) (s : Place) : Place :=
  match _h : step? p s with
  | none => s
  | some t => skip p t
termination_by s.size
decreasing_by exact step?_size (by assumption)

def atLeastOne (p : Matcher) : Matcher := next p (many p)

def maybe (p : Matcher) : Matcher := orElse p empty

def group (p : Matcher) : Matcher := fun s =>
  (p s).map fun t =>
    { t with groups := t.groups ++ [s.rest.take (s.size - t.size)] }

def textStart : Matcher := fun s => if s.last.isNone then [s] else []

def lineStart : Matcher := fun s => if s.last.isNone || s.last == some '\n' then [s] else []

def wordEdge : Matcher := fun s =>
  if (s.last.any isWord) != (s.rest.head?.any isWord) then [s] else []

def inOrder : List Matcher → Matcher
  | [] => empty
  | p :: ps => next p (inOrder ps)

def oneOf (ps : List Matcher) : Matcher := fun s => ps.flatMap fun p => p s

def text (s : String) : Matcher :=
  inOrder (s.toList.map fun c => one (· == c))

def keyword (words : List String) : Matcher :=
  oneOf (words.map text)

/-- All the blanks ahead. Where no blank may follow, this is the only end that can lead on. -/
def blanks : Matcher := fun s => [skip isBlank s]

def gap : Matcher := next (one isBlank) blanks

def wordChar : Matcher := one isWord

def findFrom (p : Matcher) (last : Option Char) (size : Nat) :
    (rest : List Char) → size = rest.length → Option Place
  | [], h => (p ⟨last, [], size, [], h⟩).head?
  | c :: rest, h =>
    match (p ⟨last, c :: rest, size, [], h⟩).head? with
    | some t => some t
    | none => findFrom p (some c) (size - 1) rest (by simp [h])

def find? (p : Matcher) (s : List Char) : Option Place :=
  findFrom p none s.length s rfl

def captures? (p : Matcher) (s : List Char) : Option (List (List Char)) :=
  (find? p s).map Place.groups

def occurs (p : Matcher) (s : List Char) : Bool :=
  (find? p s).isSome

/-- The texts of the matches from left to right without overlap; a match of nothing is skipped. -/
def findAll (p : Matcher) (last : Option Char) : List Char → List (List Char)
  | [] => []
  | c :: rest =>
    match (p (Place.before last (c :: rest))).head? with
    | some t =>
      if t.rest.length < rest.length + 1 then
        (c :: rest).take (rest.length + 1 - t.rest.length) :: findAll p t.last t.rest
      else findAll p (some c) rest
    | none => findAll p (some c) rest
termination_by s => s.length

def allMatches (p : Matcher) (s : List Char) : List (List Char) :=
  findAll p none s

end Matcher

end CodeAtlas.Text
