import CodeAtlas.Yaml.Node
import CodeAtlas.Yaml.Place
/-!
Block scalars: text on lines of its own below the line of its mark. A literal one keeps its line
breaks; in a folded one a break between two lines that begin with no blank becomes a blank.
-/
namespace CodeAtlas.Yaml

/-- Which line breaks at the end of a block scalar belong to its text: none, the one that ends its
last line, or all. -/
inductive Chomping where
  | strip
  | clip
  | keep
deriving DecidableEq, Repr, Inhabited

/-- How a block scalar is written. The indentation counts from the column of what it belongs to. -/
structure BlockStyle where
  literal : Bool
  chomping : Option Chomping := none
  indentation : Option Nat := none
deriving Repr, Inhabited

def blockStyleFrom (style : BlockStyle) : Nat → Place → Except Fault (BlockStyle × Place)
  | 0, p => .ok (style, p)
  | n + 1, p =>
    match p.head? with
    | none => .ok (style, p)
    | some c =>
      if (c == '+' || c == '-') && style.chomping.isNone then
        let chomping : Chomping := if c == '+' then .keep else .strip
        blockStyleFrom { style with chomping := some chomping } n (p.skip 1)
      else if c.isDigit && style.indentation.isNone then
        if c == '0' then .error .malformedBlock
        else blockStyleFrom { style with indentation := some (Node.digitValue c) } n (p.skip 1)
      else .ok (style, p)

def afterLine (text : List Char) : Except Fault (List Char) :=
  let text := text.dropWhile isSpace
  let text := if text.head? == some '#' then text.dropWhile fun c => !isBreak c else text
  match text with
  | [] => .ok []
  | c :: rest => if isBreak c then .ok rest else .error .malformedBlock

/-- The column of the first line that is not blank, or of a blank line before it if that is
longer. -/
def firstIndentation (longest column : Nat) : List Char → Except Fault Nat
  | [] => .ok (max longest column)
  | c :: rest =>
    if c == ' ' then firstIndentation longest (column + 1) rest
    else if isBreak c then firstIndentation (max longest column) 0 rest
    else if c == '\t' then .error .tabIndentation
    else .ok (max longest column)

/-- What was read of a block scalar: its text and the line breaks of blank lines after it, both
backwards; the break that ends its last line, whether that line begins with a blank, and whether
the line still goes on. -/
structure BlockDraft where
  text : List Char
  ending : List Char
  breaks : List Char
  indented : Bool
  inLine : Bool

namespace BlockDraft

def empty : BlockDraft := ⟨[], [], [], false, false⟩

def begin (literal : Bool) (d : BlockDraft) (c : Char) : BlockDraft :=
  let folds := !literal && d.ending == ['\n'] && !d.indented && !isSpace c
  let between :=
    if !folds then d.breaks ++ d.ending
    else if d.breaks.isEmpty then [' ']
    else d.breaks
  ⟨c :: between ++ d.text, [], [], isSpace c, true⟩

def finish (chomping : Chomping) (d : BlockDraft) : List Char :=
  match chomping with
  | .strip => d.text.reverse
  | .clip => d.text.reverse ++ d.ending
  | .keep => d.text.reverse ++ d.ending ++ d.breaks.reverse

end BlockDraft

def blockLines (literal : Bool) (indentation : Nat) (d : BlockDraft) (column : Nat) :
    List Char → Except Fault (BlockDraft × Place)
  | [] => .ok (d, ⟨column, []⟩)
  | c :: rest =>
    if d.inLine then
      if isBreak c then
        blockLines literal indentation { d with ending := [c], inLine := false } 0 rest
      else blockLines literal indentation { d with text := c :: d.text } (column + 1) rest
    else if c == ' ' && column < indentation then
      blockLines literal indentation d (column + 1) rest
    else if c == '\t' && column < indentation then .error .tabIndentation
    else if isBreak c then
      blockLines literal indentation { d with breaks := c :: d.breaks } 0 rest
    else if column == indentation then
      blockLines literal indentation (d.begin literal c) (column + 1) rest
    else .ok (d, ⟨column, c :: rest⟩)

/-- The text of the block scalar whose sign is at `p`, and the place after it. It belongs to what
is at the column before `least`; at the least its lines begin at column one. -/
def blockScalarAt (least : Nat) (p : Place) : Except Fault (String × Place) := do
  let (style, p) ← blockStyleFrom { literal := p.head? == some '|' } 2 (p.skip 1)
  let text ← afterLine p.rest
  let indentation ←
    match style.indentation with
    | some n => .ok (least - 1 + n)
    | none => (firstIndentation 0 0 text).map fun n => max (max n least) 1
  let (d, p) ← blockLines style.literal indentation .empty 0 text
  .ok (String.ofList (d.finish (style.chomping.getD .clip)), p)

end CodeAtlas.Yaml
