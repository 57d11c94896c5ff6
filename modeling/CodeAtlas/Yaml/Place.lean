/-!
Places in a YAML text: blanks and comments, line ends, and the borders between documents. A place
is its column and what follows.
-/
namespace CodeAtlas.Yaml

structure Place where
  column : Nat
  rest : List Char
deriving Repr, Inhabited

namespace Place

def head? (p : Place) : Option Char := p.rest.head?

def skip (p : Place) (n : Nat) : Place := ⟨p.column + n, p.rest.drop n⟩

end Place

def isSpace (c : Char) : Bool := c == ' ' || c == '\t'

def isBreak (c : Char) : Bool := c == '\n' || c == '\u2028' || c == '\u2029'

def wordEnds : List Char → Bool
  | [] => true
  | c :: _ => isSpace c || isBreak c

def isBorder (c : Char) (p : Place) : Bool :=
  p.column == 0 && p.rest.take 3 == [c, c, c] && wordEnds (p.rest.drop 3)

def atBorder (p : Place) : Bool := isBorder '-' p || isBorder '.' p

def atEnd (p : Place) : Bool := p.rest.isEmpty || atBorder p

/-- What a walk over blanks and comments knows: whether tabs count as blanks, also on the next
lines, whether it is inside a comment, and whether it has left the line. -/
structure Gap where
  tabs : Bool
  tabsBelow : Bool
  comment : Bool
  crossed : Bool

def gapFrom (g : Gap) (column : Nat) : List Char → Place × Bool
  | [] => (⟨column, []⟩, g.crossed)
  | c :: rest =>
    if isBreak c then
      gapFrom { g with tabs := g.tabsBelow, comment := false, crossed := true } 0 rest
    else if g.comment || c == ' ' || (c == '\t' && g.tabs) then gapFrom g (column + 1) rest
    else if c == '#' then gapFrom { g with comment := true } (column + 1) rest
    else (⟨column, c :: rest⟩, g.crossed)

/-- Blanks and comments between block values: tabs may separate values on a line, but not begin
one. -/
def blockGap (tabs : Bool) (p : Place) : Place × Bool :=
  gapFrom ⟨tabs, false, false, false⟩ p.column p.rest

def flowGap (p : Place) : Place :=
  (gapFrom ⟨true, true, false, false⟩ p.column p.rest).1

def sameLine (p q : Place) : Bool :=
  !(p.rest.take (p.rest.length - q.rest.length)).any isBreak

/-- Whether what stands between `p` and `q` may be a key without a mark: it is on one line and has
at most 1024 characters. -/
def spansKey (p q : Place) : Bool :=
  sameLine p q && p.rest.length - q.rest.length ≤ 1024

end CodeAtlas.Yaml
