import CodeAtlas.Yaml.Directive
import CodeAtlas.Yaml.Scalar
/-!
Reading a YAML document: block mappings and lists by their columns, bracketed ones by their marks,
scalars of all kinds, anchors, aliases and tags.

The readers call each other only on shorter texts, up to a fixed number of calls for each
character; the first argument counts the calls that are left.
-/
namespace CodeAtlas.Yaml

def atSign (c : Char) (p : Place) : Bool :=
  p.head? == some c && wordEnds (p.rest.drop 1)

def atDash (p : Place) : Bool := atSign '-' p

def atColon (p : Place) : Bool := atSign ':' p

def atQuestion (p : Place) : Bool := atSign '?' p

def scalarAt (flow : Bool) (least : Nat) (p : Place) : Except Fault (Written × Place × Bool) :=
  match p.rest with
  | [] => .error .unexpectedCharacter
  | c :: rest =>
    if c == '"' || c == '\'' then do
      let (text, p) ← quotedFrom (c == '"') .empty (p.column + 1) rest
      .ok (.scalar false (String.ofList text), p, false)
    else if startsPlain flow c rest then do
      let (text, p, crossed) ← plainFrom flow least ⟨[], [], []⟩ p.column p.rest
      .ok (.scalar true (String.ofList text), p, crossed)
    else .error .unexpectedCharacter

def atBlockScalar (p : Place) : Bool :=
  p.head? == some '|' || p.head? == some '>'

def atFlowEnd (p : Place) : Bool :=
  p.head?.any [',', ']', '\x7d'].contains

mutual

def flowValue : Nat → Place → Except Fault (Written × Place)
  | 0, _ => .error .unclosedFlow
  | n + 1, p => do
    let (marks, p, _) ← marksAt true p
    let (value, p) ←
      if !marks.isEmpty && (atFlowEnd p || p.head? == some ':') then .ok (.nothing, p)
      else flowBare n p
    .ok (← value.mark marks, p)

def flowBare : Nat → Place → Except Fault (Written × Place)
  | 0, _ => .error .unclosedFlow
  | n + 1, p =>
    if atBorder p then .error .unexpectedCharacter
    else if p.head? == some '[' then flowItems n [] (p.skip 1)
    else if p.head? == some '\x7b' then flowEntries n [] (p.skip 1)
    else if p.head? == some '*' then
      (anchorAt p).map fun (name, p) => (.reference name, p)
    else (scalarAt true 0 p).map fun (value, p, _) => (value, p)

def flowEntryValue : Nat → Place → Except Fault (Written × Place)
  | 0, _ => .error .unclosedFlow
  | n + 1, p =>
    let p := flowGap p
    if atFlowEnd p then .ok (.nothing, p)
    else (flowValue n p).map fun (value, p) => (value, flowGap p)

/-- A value inside brackets, and the value after its colon if there is one. A key that a question
mark marks always has a value. If such a key is missing in a list, the sign after it belongs to the
question mark. -/
def flowPair : Nat → Bool → Place → Except Fault (Written × Option Written × Place)
  | 0, _, _ => .error .unclosedFlow
  | n + 1, inList, p =>
    if p.head? == some '?' then do
      let q := flowGap (p.skip 1)
      let (key, q) ←
        if atFlowEnd q || q.head? == some ':' then
          .ok (.nothing, if inList then flowGap (q.skip 1) else q)
        else flowEntryValue n q
      let (value, q) ←
        if q.head? == some ':' then flowEntryValue n (q.skip 1) else .ok (.nothing, q)
      .ok (key, some value, q)
    else do
      let (key, afterKey) ← flowValue n p
      let q := flowGap afterKey
      if q.head? == some ':' then
        if !spansKey p q then .error .misplacedValue
        else
          let (value, q) ← flowEntryValue n (q.skip 1)
          .ok (key, some value, q)
      else .ok (key, none, q)

def flowItems : Nat → List Written → Place → Except Fault (Written × Place)
  | 0, _, _ => .error .unclosedFlow
  | n + 1, items, p => do
    let p := flowGap p
    if p.head? == some ']' then .ok (.list items.reverse, p.skip 1)
    else
      let (key, value, p) ← flowPair n true p
      let item := match value with
        | some value => .mapping [(key, value)]
        | none => key
      if p.head? == some ',' then flowItems n (item :: items) (p.skip 1)
      else if p.head? == some ']' then .ok (.list (item :: items).reverse, p.skip 1)
      else .error .unclosedFlow

def flowEntries : Nat → List (Written × Written) → Place → Except Fault (Written × Place)
  | 0, _, _ => .error .unclosedFlow
  | n + 1, entries, p => do
    let p := flowGap p
    if p.head? == some '\x7d' then .ok (.mapping entries.reverse, p.skip 1)
    else
      let (key, value, p) ← flowPair n false p
      let entries := (key, value.getD .nothing) :: entries
      if p.head? == some ',' then flowEntries n entries (p.skip 1)
      else if p.head? == some '\x7d' then .ok (.mapping entries.reverse, p.skip 1)
      else .error .unclosedFlow

end

def bareAtom (n least : Nat) (p : Place) : Except Fault (Written × Place × Bool) :=
  match p.head? with
  | some '[' | some '\x7b' => (flowBare n p).map fun (value, p) => (value, p, false)
  | some '*' => (anchorAt p).map fun (name, p) => (.reference name, p, false)
  | some '|' | some '>' =>
    (blockScalarAt least p).map fun (text, p) => (.scalar false text, p, true)
  | _ => scalarAt false least p

def atom (n least : Nat) (marks : Marks) (p : Place) :
    Except Fault (Written × Place × Bool) := do
  if !marks.isEmpty && (p.rest.isEmpty || atColon p) then
    .ok (← Written.nothing.mark marks, p, false)
  else
    let (value, p, crossed) ← bareAtom n least p
    let (p, further) := blockGap (!crossed) p
    .ok (← value.mark marks, p, crossed || further)

mutual

/-- A block value that begins at `p`; its lines begin at the column `least` or further right. A
list that is the value of an entry may have its dashes below the key. -/
def blockNode : Nat → Nat → Bool → Place → Except Fault (Written × Place)
  | 0, _, _, _ => .error .misplacedValue
  | n + 1, least, belowKey, p =>
    if atDash p then blockItems n p.column false [] p
    else if atQuestion p then blockEntries n p.column [] p
    else do
      let (marks, q, crossed) ← marksAt false p
      if crossed then
        let (value, q) ← blockBelow n least belowKey q
        .ok (← value.mark marks, q)
      else
        let (value, q, crossed) ← atom n least marks q
        if !crossed && atColon q then
          if spansKey p q then
            let (entry, q) ← blockPart n (p.column + 1) false true (q.skip 1)
            blockEntries n p.column [(value, entry)] q
          else .error .misplacedValue
        else if crossed || q.rest.isEmpty then .ok (value, q)
        else .error .misplacedValue

/-- A block value that may begin at `p`, which is the first place on its line that is neither blank
nor comment; it is nothing if the line belongs to something else. A block scalar may have its sign
below that of the value it belongs to. -/
def blockBelow : Nat → Nat → Bool → Place → Except Fault (Written × Place)
  | 0, _, _, _ => .error .misplacedValue
  | n + 1, least, belowKey, p =>
    if atEnd p then .ok (.nothing, p)
    else if least ≤ p.column || (p.column + 1 == least && atBlockScalar p) then
      blockNode n least belowKey p
    else if belowKey && p.column + 1 == least && atDash p then blockItems n p.column true [] p
    else .ok (.nothing, p)

/-- A block value after the sign that announces it. After some signs a list or a mapping may begin
on the same line. -/
def blockPart : Nat → Nat → Bool → Bool → Place → Except Fault (Written × Place)
  | 0, _, _, _, _ => .error .misplacedValue
  | n + 1, least, compact, belowKey, p => do
    let (p, crossed) := blockGap (!compact) p
    if crossed then blockBelow n least belowKey p
    else if p.rest.isEmpty then .ok (.nothing, p)
    else if compact then blockNode n least belowKey p
    else
      let (marks, p, crossed) ← marksAt false p
      if crossed then
        let (value, p) ← blockBelow n least belowKey p
        .ok (← value.mark marks, p)
      else
        let (value, p, crossed) ← atom n least marks p
        if crossed || p.rest.isEmpty then .ok (value, p) else .error .misplacedValue

def blockEntries : Nat → Nat → List (Written × Written) → Place →
    Except Fault (Written × Place)
  | 0, _, _, _ => .error .misplacedValue
  | n + 1, column, entries, p =>
    if atEnd p || p.column < column then .ok (.mapping entries.reverse, p)
    else if column < p.column then .error .misplacedValue
    else if atQuestion p then do
      let (key, p) ← blockPart n (column + 1) true true (p.skip 1)
      let (value, p) ←
        if p.column == column && atColon p then blockPart n (column + 1) true true (p.skip 1)
        else .ok (.nothing, p)
      blockEntries n column ((key, value) :: entries) p
    else do
      let (marks, q, crossed) ← marksAt false p
      if crossed then .error .misplacedValue
      else
        let (key, q, crossed) ← atom n (column + 1) marks q
        if !crossed && atColon q && spansKey p q then
          let (value, q) ← blockPart n (column + 1) false true (q.skip 1)
          blockEntries n column ((key, value) :: entries) q
        else .error .misplacedValue

/-- The items of a list whose dashes are at the given column, after those that were read, last
first. If the dashes are below a key, the next key ends the list. -/
def blockItems : Nat → Nat → Bool → List Written → Place → Except Fault (Written × Place)
  | 0, _, _, _, _ => .error .misplacedValue
  | n + 1, column, belowKey, items, p => do
    let (item, p) ← blockPart n (column + 1) true false (p.skip 1)
    if atEnd p || p.column < column then .ok (.list (item :: items).reverse, p)
    else if p.column == column && atDash p then blockItems n column belowKey (item :: items) p
    else if p.column == column && belowKey then .ok (.list (item :: items).reverse, p)
    else .error .misplacedValue

end

def withLineFeeds : List Char → List Char
  | '\r' :: '\n' :: rest => '\n' :: withLineFeeds rest
  | c :: rest => (if c == '\r' || c == '\u0085' then '\n' else c) :: withLineFeeds rest
  | [] => []

def isAllowed (c : Char) : Bool :=
  c == '\t' || c == '\n' || c == '\r' || (0x20 ≤ c.toNat && c.toNat ≤ 0x7E) || c == '\u0085' ||
    (0xA0 ≤ c.toNat && c.toNat != 0xFEFF && c.toNat != 0xFFFE && c.toNat != 0xFFFF)

def endsHere : Nat → Place → Bool
  | 0, p => p.rest.isEmpty
  | n + 1, p =>
    p.rest.isEmpty || (isBorder '.' p && endsHere n (blockGap true (p.skip 3)).1)

def readDocument (text : List Char) : Except Fault Node := do
  let calls := 8 * text.length + 16
  let (p, _) := blockGap false ⟨0, text⟩
  let (handles, value, p) ←
    if isBorder '-' p || p.head? == some '%' then
      let (directives, p) ← Directives.readFrom {} text.length p
      let (value, p) ← blockPart calls 0 false false (p.skip 3)
      .ok (directives.allHandles, value, p)
    else if isBorder '.' p then .error .misplacedValue
    else
      let (value, p) ← blockBelow calls 0 false p
      .ok (defaultHandles, value, p)
  if endsHere text.length p then (value.resolve handles []).map Prod.fst
  else if atBorder p then .error .severalDocuments
  else .error .misplacedValue

/-- The value of a text that is one document; of a text without a value it is nothing. -/
def read (text : String) : Except Fault Node :=
  let cs := match text.toList with
    | '\uFEFF' :: rest => rest
    | cs => cs
  if cs.all isAllowed then readDocument (withLineFeeds cs) else .error .forbiddenCharacter

end CodeAtlas.Yaml
