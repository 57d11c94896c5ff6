import CodeAtlas.Text.Utf8
import CodeAtlas.Yaml.Place
import CodeAtlas.Yaml.Written
/-!
Reading what stands before a value: an anchor, which gives it a name, and a tag.
-/
namespace CodeAtlas.Yaml

def isNameChar (c : Char) : Bool := c.isAlphanum || c == '-' || c == '_'

def nameEnds (text : List Char) : Bool :=
  wordEnds text ||
    text.head?.any ['?', ':', ',', ']', '\x7d', '%', '@', '\x60'].contains

def anchorAt (p : Place) : Except Fault (String × Place) :=
  let name := (p.rest.drop 1).takeWhile isNameChar
  let q := p.skip (name.length + 1)
  if name.isEmpty || !nameEnds q.rest then .error .malformedAnchor
  else .ok (String.ofList name, q)

def isTagChar (c : Char) : Bool :=
  isNameChar c ||
    [';', '/', '?', ':', '@', '&', '=', '+', '$', '.', '!', '~', '*', '\'', '(', ')'].contains c

/-- The bytes of a tag, where a percent sign and two hexadecimal digits write any byte, and what
follows them. A tag between angle brackets may hold a few characters more. -/
def tagBytes (verbatim : Bool) : List Char → Except Fault (List UInt8 × List Char)
  | [] => .ok ([], [])
  | ['%'] | ['%', _] => .error .malformedTag
  | '%' :: a :: b :: rest =>
    let high := Node.digitValue a
    let low := Node.digitValue b
    if 16 ≤ high || 16 ≤ low then .error .malformedTag
    else do
      let (bytes, rest) ← tagBytes verbatim rest
      .ok ((high * 16 + low).toUInt8 :: bytes, rest)
  | c :: rest =>
    if isTagChar c || (verbatim && [',', '[', ']'].contains c) then do
      let (bytes, rest) ← tagBytes verbatim rest
      .ok (c.toNat.toUInt8 :: bytes, rest)
    else .ok ([], c :: rest)

def tagText (verbatim : Bool) (text : List Char) : Except Fault (String × List Char) := do
  let (bytes, rest) ← tagBytes verbatim text
  match Text.Utf8.strict? ⟨bytes.toArray⟩ with
  | some s => .ok (s, rest)
  | none => .error .malformedTag

def someTagText (verbatim : Bool) (text : List Char) : Except Fault (String × List Char) := do
  let (s, rest) ← tagText verbatim text
  if s.isEmpty then .error .malformedTag else .ok (s, rest)

def tagFrom (text : List Char) : Except Fault (Tag × List Char) :=
  match text with
  | '<' :: text => do
    let (name, rest) ← someTagText true text
    match rest with
    | '>' :: rest => .ok (⟨"", name⟩, rest)
    | _ => .error .malformedTag
  | _ =>
    let name := text.takeWhile isNameChar
    match text.drop name.length with
    | '!' :: text => do
      let (suffix, rest) ← someTagText false text
      .ok (⟨"!" ++ String.ofList name ++ "!", suffix⟩, rest)
    | text => do
      let (more, rest) ← tagText false text
      let suffix := String.ofList name ++ more
      .ok (if suffix.isEmpty then ⟨"", "!"⟩ else ⟨"!", suffix⟩, rest)

def tagAt (flow : Bool) (p : Place) : Except Fault (Tag × Place) := do
  let (tag, rest) ← tagFrom (p.rest.drop 1)
  if wordEnds rest || (flow && rest.head? == some ',') then
    .ok (tag, p.skip (p.rest.length - rest.length))
  else .error .malformedTag

/-- The anchor and the tag at a place, at most one of each, after those that were read. With them
comes the next place, and whether it is on a later line; among block values what is on a later
line is not read. -/
def marksFrom (flow : Bool) (marks : Marks) : Nat → Place → Except Fault (Marks × Place × Bool)
  | 0, p => .ok (marks, p, false)
  | n + 1, p =>
    let next (marks : Marks) (p : Place) :=
      if flow then marksFrom flow marks n (flowGap p)
      else
        let (p, crossed) := blockGap true p
        if crossed then .ok (marks, p, true) else marksFrom flow marks n p
    if p.head? == some '&' && marks.anchor.isNone then do
      let (name, p) ← anchorAt p
      next { marks with anchor := some name } p
    else if p.head? == some '!' && marks.tag.isNone then do
      let (tag, p) ← tagAt flow p
      next { marks with tag := some tag } p
    else .ok (marks, p, false)

def marksAt (flow : Bool) (p : Place) : Except Fault (Marks × Place × Bool) :=
  marksFrom flow {} 2 p

end CodeAtlas.Yaml
