import CodeAtlas.Glob.Token
/-!
Reading a glob pattern from left to right, one character at a time. The reader keeps the parts of
the branch that it is in, the groups that are still open, and what the last characters announced.
-/
namespace CodeAtlas.Glob

inductive Fault where
  | unclosedClass
  | invalidRange (low high : Char)
  | unopenedGroup
  | unclosedGroup
  | danglingEscape
deriving DecidableEq, Repr, Inhabited

def Fault.reason : Fault → String
  | unclosedClass => "unclosed character class; missing ']'"
  | invalidRange low high =>
    "invalid range; '" ++ String.singleton low ++ "' > '" ++ String.singleton high ++ "'"
  | unopenedGroup =>
    "unopened alternate group; missing '\x7b' (maybe escape '\x7d' with '[\x7d]'?)"
  | unclosedGroup =>
    "unclosed alternate group; missing '\x7d' (maybe escape '\x7b' with '[\x7b]'?)"
  | danglingEscape => "dangling '\\'"

/-- A class whose closing bracket has not come yet. The last range comes first; `first` holds
until a character was taken, `dashed` after a dash that may make a range. -/
structure OpenClass where
  negated : Bool
  ranges : List (Char × Char)
  first : Bool
  dashed : Bool
deriving Repr, Inhabited

namespace OpenClass

def opened (negated : Bool) : OpenClass := ⟨negated, [], true, false⟩

def add (k : OpenClass) (c : Char) : OpenClass :=
  { k with ranges := (c, c) :: k.ranges, first := false }

def extend (k : OpenClass) (c : Char) : Except Fault OpenClass :=
  match k.ranges with
  | [] => .ok (k.add c)
  | (low, _) :: rest =>
    if c < low then .error (.invalidRange low c)
    else .ok { k with ranges := (low, c) :: rest, first := false, dashed := false }

def take (k : OpenClass) (c : Char) : Except Fault OpenClass :=
  if k.dashed then k.extend c
  else if c == '-' && !k.first then .ok { k with dashed := true }
  else .ok (k.add c)

/-- The part that a closed class stands for; a dash before the bracket is a member. -/
def close (k : OpenClass) : Token :=
  .oneOf k.negated (if k.dashed then k.add '-' else k).ranges.reverse

end OpenClass

/-- A group whose closing brace has not come yet: the parts before it and its finished branches,
both from the last to the first. -/
structure OpenGroup where
  before : List Token
  branches : List (List Token)
deriving Repr, Inhabited

inductive Mode where
  | plain
  | escaped
  | star (before : Option Char)
  | stars (before : Option Char)
  | bracket
  | within (k : OpenClass)
deriving Repr, Inhabited

/-- The state of the reader: the parts of the branch it is in and the groups around it, the last
ones first, its mode, and the last character read. -/
structure Reader where
  tokens : List Token
  groups : List OpenGroup
  mode : Mode
  last : Option Char
deriving Repr, Inhabited

namespace Reader

def start : Reader := ⟨[], [], .plain, none⟩

def push (r : Reader) (t : Token) : Reader :=
  { r with tokens := t :: r.tokens, mode := .plain }

/-- Puts a part in the place of the last one, unless that reaches to a border of the pattern
already. -/
def replace (r : Reader) (t : Token) : Reader :=
  match r.tokens with
  | .leading :: _ | .trailing :: _ => { r with mode := .plain }
  | _ :: rest => { r with tokens := t :: rest, mode := .plain }
  | [] => r.push t

def openGroup (r : Reader) : Reader :=
  { r with tokens := [], groups := ⟨r.tokens, []⟩ :: r.groups }

/-- Begins the next branch; outside a group a comma is a character. -/
def comma (r : Reader) : Reader :=
  match r.groups with
  | [] => r.push (.char ',')
  | g :: outer => { r with
      tokens := [], groups := { g with branches := r.tokens.reverse :: g.branches } :: outer }

def closeGroup (r : Reader) : Except Fault Reader :=
  match r.groups with
  | [] => .error .unopenedGroup
  | g :: outer => .ok { r with
      tokens := .group (r.tokens.reverse :: g.branches).reverse :: g.before, groups := outer }

/-- Takes two stars that stand between `before` and `next`. They cross directories at the start of
a branch, after a slash, and inside a group after a comma or brace that is a character; elsewhere
they are two stars. The flag says that `next`, a slash, is taken as well. -/
def takeStars (r : Reader) (before next : Option Char) : Reader × Bool :=
  let inGroup := !r.groups.isEmpty
  let plain := ((r.push .anyRun).push .anyRun, false)
  if r.tokens.isEmpty then
    match next with
    | none => (r.push .leading, false)
    | some '/' => (r.push .leading, true)
    | some _ => plain
  else if before == some '/' || (inGroup && (before == some ',' || before == some '\x7b')) then
    match next with
    | none => (r.replace .trailing, false)
    | some '/' => (r.replace .between, true)
    | some c => if inGroup && (c == ',' || c == '\x7d') then (r.replace .trailing, false) else plain
  else plain

def takePlain (r : Reader) (c : Char) : Except Fault Reader :=
  match c with
  | '?' => .ok (r.push .anyByte)
  | '*' => .ok { r with mode := .star r.last }
  | '[' => .ok { r with mode := .bracket }
  | '\x7b' => .ok r.openGroup
  | '\x7d' => r.closeGroup
  | ',' => .ok r.comma
  | '\\' => .ok { r with mode := .escaped }
  | c => .ok (r.push (.char c))

def takeWithin (r : Reader) (k : OpenClass) (c : Char) : Except Fault Reader :=
  if c == ']' && !k.first then .ok (r.push k.close)
  else (k.take c).map fun k => { r with mode := .within k }

def take (r : Reader) (c : Char) : Except Fault Reader :=
  match r.mode with
  | .plain => r.takePlain c
  | .escaped => .ok (r.push (.char c))
  | .star before =>
    if c == '*' then .ok { r with mode := .stars before } else (r.push .anyRun).takePlain c
  | .stars before =>
    match r.takeStars before (some c) with
    | (r, true) => .ok r
    | (r, false) => r.takePlain c
  | .bracket =>
    if c == '!' || c == '^' then .ok { r with mode := .within (OpenClass.opened true) }
    else r.takeWithin (OpenClass.opened false) c
  | .within k => r.takeWithin k c

def step (r : Reader) (c : Char) : Except Fault Reader :=
  (r.take c).map fun r => { r with last := some c }

def finish (r : Reader) : Except Fault (List Token) :=
  let ended : Except Fault Reader :=
    match r.mode with
    | .plain => .ok r
    | .escaped => .error .danglingEscape
    | .star _ => .ok (r.push .anyRun)
    | .stars before => .ok (r.takeStars before none).1
    | .bracket | .within _ => .error .unclosedClass
  ended.bind fun r => if r.groups.isEmpty then .ok r.tokens.reverse else .error .unclosedGroup

end Reader

end CodeAtlas.Glob
