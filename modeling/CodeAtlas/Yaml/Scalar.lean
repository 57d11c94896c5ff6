import CodeAtlas.Yaml.Node
import CodeAtlas.Yaml.Place
/-!
Plain scalars and quoted ones. Line breaks inside a scalar fold into a blank, or into one break
fewer than were written.
-/
namespace CodeAtlas.Yaml

/-- What stands for the blanks and line breaks inside a scalar: one line feed alone is a blank, and
before other breaks it is left out. -/
def folded (spaces : List Char) : List Char → List Char
  | [] => spaces
  | ['\n'] => [' ']
  | '\n' :: breaks => breaks
  | breaks => breaks

def isFlowMark (c : Char) : Bool := [',', '[', ']', '\x7b', '\x7d'].contains c

/-- What was read of a plain scalar: its text, the blanks after it and the line breaks after it,
all backwards. -/
structure PlainDraft where
  text : List Char
  spaces : List Char
  breaks : List Char

/-- The rest of a plain scalar. On a later line it goes on only from the column `least`, unless it
stands inside brackets. The result holds the text, the place after the blanks that follow it and
whether that is on a later line. -/
def plainFrom (flow : Bool) (least : Nat) (d : PlainDraft) (column : Nat) :
    List Char → Except Fault (List Char × Place × Bool)
  | [] => .ok (d.text.reverse, ⟨column, []⟩, !d.breaks.isEmpty)
  | c :: rest =>
    let place : Place := ⟨column, c :: rest⟩
    let finished := .ok (d.text.reverse, place, !d.breaks.isEmpty)
    if isBreak c then plainFrom flow least { d with breaks := c :: d.breaks } 0 rest
    else if isSpace c then
      if d.breaks.isEmpty then
        plainFrom flow least { d with spaces := c :: d.spaces } (column + 1) rest
      else if c == '\t' && column < least then .error .tabIndentation
      else plainFrom flow least d (column + 1) rest
    else if !d.breaks.isEmpty && (atBorder place || (!flow && column < least)) then finished
    else if c == '#' && (!d.breaks.isEmpty || !d.spaces.isEmpty) then finished
    else if c == ':' && wordEnds rest then finished
    else if flow && c == ':' && rest.head?.any fun n => isFlowMark n || n == '?' then
      .error .unexpectedCharacter
    else if flow && isFlowMark c then finished
    else
      let text := c :: (folded d.spaces.reverse d.breaks.reverse).reverse ++ d.text
      plainFrom flow least ⟨text, [], []⟩ (column + 1) rest

def startsPlain (flow : Bool) (c : Char) (rest : List Char) : Bool :=
  if c == '-' then !wordEnds rest
  else if c == '?' || c == ':' then !flow && !wordEnds rest
  else !(isSpace c || isFlowMark c ||
    ['#', '&', '*', '!', '|', '>', '\'', '"', '%', '@', '\x60'].contains c)

def simpleEscape? : Char → Option Char
  | '0' => some '\x00'
  | 'a' => some '\x07'
  | 'b' => some '\x08'
  | 't' | '\t' => some '\t'
  | 'n' => some '\n'
  | 'v' => some '\x0b'
  | 'f' => some '\x0c'
  | 'r' => some '\r'
  | 'e' => some '\x1b'
  | ' ' => some ' '
  | '"' => some '"'
  | '/' => some '/'
  | '\\' => some '\\'
  | 'N' => some '\u0085'
  | '_' => some '\u00a0'
  | 'L' => some '\u2028'
  | 'P' => some '\u2029'
  | _ => none

def escapeLength : Char → Nat
  | 'x' => 2
  | 'u' => 4
  | 'U' => 8
  | _ => 0

/-- What was read of a quoted scalar: its text, the blanks after it and the line breaks after it,
all backwards, whether the first break was escaped, and the hexadecimal digits that are still
missing of an escaped character with its value so far. -/
structure QuoteDraft where
  text : List Char
  spaces : List Char
  breaks : List Char
  joined : Bool
  missing : Nat
  value : Nat

namespace QuoteDraft

def empty : QuoteDraft := ⟨[], [], [], false, 0, 0⟩

def settled (d : QuoteDraft) : List Char :=
  let between :=
    if d.joined then d.breaks else (folded d.spaces.reverse d.breaks.reverse).reverse
  between ++ d.text

def add (d : QuoteDraft) (c : Char) : QuoteDraft :=
  { empty with text := c :: d.settled }

def addDigit (d : QuoteDraft) (c : Char) : Except Fault QuoteDraft :=
  let value := d.value * 16 + Node.digitValue c
  if 16 ≤ Node.digitValue c then .error .unknownEscape
  else if d.missing == 1 then
    if h : value.isValidChar then .ok (d.add (Char.ofNatAux value h)) else .error .unknownEscape
  else .ok { d with missing := d.missing - 1, value }

end QuoteDraft

def quotedFrom (double : Bool) (d : QuoteDraft) (column : Nat) :
    List Char → Except Fault (List Char × Place)
  | [] => .error .unclosedQuote
  | c :: rest =>
    if atBorder ⟨column, c :: rest⟩ then .error .unclosedQuote
    else if d.missing != 0 then do
      quotedFrom double (← d.addDigit c) (column + 1) rest
    else if isBreak c then
      quotedFrom double { d with breaks := c :: d.breaks } 0 rest
    else if isSpace c then
      if d.breaks.isEmpty && !d.joined then
        quotedFrom double { d with spaces := c :: d.spaces } (column + 1) rest
      else quotedFrom double d (column + 1) rest
    else if double && c == '\\' then
      match rest with
      | [] => .error .unclosedQuote
      | e :: rest =>
        if isBreak e then
          quotedFrom double ⟨d.settled, [], [], true, 0, 0⟩ 0 rest
        else if escapeLength e != 0 then
          quotedFrom double { QuoteDraft.empty with text := d.settled, missing := escapeLength e }
            (column + 2) rest
        else
          match simpleEscape? e with
          | some value => quotedFrom double (d.add value) (column + 2) rest
          | none => .error .unknownEscape
    else if !double && c == '\'' then
      match rest with
      | '\'' :: rest => quotedFrom double (d.add '\'') (column + 2) rest
      | rest => .ok (d.settled.reverse, ⟨column + 1, rest⟩)
    else if double && c == '"' then .ok (d.settled.reverse, ⟨column + 1, rest⟩)
    else quotedFrom double (d.add c) (column + 1) rest

end CodeAtlas.Yaml
