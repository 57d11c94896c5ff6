import CodeAtlas.Yaml.Node
/-!
YAML values as they are written: a value may have a name, and an alias stands for the last value
before it that has its name. `Written.resolve` replaces the aliases by what they stand for.
-/
namespace CodeAtlas.Yaml

/-- A tag: a handle, which stands for the beginning of a name, and the rest of the name. A tag
without a handle is the name itself. -/
structure Tag where
  handle : String
  suffix : String
deriving DecidableEq, Repr, Inhabited

structure Marks where
  anchor : Option String := none
  tag : Option Tag := none
deriving DecidableEq, Repr, Inhabited

namespace Marks

def isEmpty (m : Marks) : Bool := m.anchor.isNone && m.tag.isNone

def union? (a b : Marks) : Option Marks :=
  if (a.anchor.isSome && b.anchor.isSome) || (a.tag.isSome && b.tag.isSome) then none
  else some ⟨a.anchor.or b.anchor, a.tag.or b.tag⟩

end Marks

abbrev Handles := List (String × String)

def defaultHandles : Handles :=
  [("!", "!"), ("!!", "tag:yaml.org,2002:")]

def Tag.name (handles : Handles) (t : Tag) : Except Fault String :=
  if t.handle.isEmpty then .ok t.suffix
  else
    match handles.lookup t.handle with
    | some start => .ok (start ++ t.suffix)
    | none => .error .unknownTagHandle

inductive Written where
  | scalar (plain : Bool) (text : String)
  | list (items : List Written)
  | mapping (entries : List (Written × Written))
  | reference (name : String)
  | marked (marks : Marks) (value : Written)
deriving Repr, Inhabited

namespace Written

def nothing : Written := scalar true ""

def mark (marks : Marks) (value : Written) : Except Fault Written :=
  if marks.isEmpty then .ok value
  else
    match value with
    | reference _ => .error .repeatedMark
    | marked inner value =>
      match marks.union? inner with
      | some marks => .ok (marked marks value)
      | none => .error .repeatedMark
    | _ => .ok (marked marks value)

/-- What an alias inside the value itself stands for: a value of the same kind without content. -/
def outline : Written → Node
  | scalar plain text => .scalar plain text
  | mapping _ => .mapping []
  | list _ | reference _ | marked _ _ => .list []

/-- Values by their names, the last one first. -/
abbrev Named := List (String × Node)

/-- The value with its tag; the tag that is an exclamation mark alone means none. -/
def withTag (handles : Handles) (tag : Option Tag) (value : Node) : Except Fault Node :=
  match tag with
  | none => .ok value
  | some tag => do
    let name ← tag.name handles
    .ok (if name == "!" then value else .tagged name value)

mutual

/-- The value in which aliases are replaced, with the values that get a name inside; `named` holds
those before it. -/
def resolve (handles : Handles) (named : Named) : Written → Except Fault (Node × Named)
  | scalar plain text => .ok (.scalar plain text, [])
  | list items => do
    let (items, found) ← resolveItems handles named items
    .ok (.list items, found)
  | mapping entries => do
    let (entries, found) ← resolveEntries handles named entries
    .ok (.mapping entries, found)
  | reference name =>
    match named.lookup name with
    | some value => .ok (value, [])
    | none => .error .unknownAnchor
  | marked marks value =>
    match marks.anchor with
    | none => do
      let (value, found) ← value.resolve handles named
      .ok (← withTag handles marks.tag value, found)
    | some name => do
      let (value, found) ← value.resolve handles ((name, value.outline) :: named)
      let value ← withTag handles marks.tag value
      .ok (value, found ++ [(name, value)])

def resolveItems (handles : Handles) (named : Named) :
    List Written → Except Fault (List Node × Named)
  | [] => .ok ([], [])
  | item :: items => do
    let (item, found) ← item.resolve handles named
    let (items, more) ← resolveItems handles (found ++ named) items
    .ok (item :: items, more ++ found)

def resolveEntries (handles : Handles) (named : Named) :
    List (Written × Written) → Except Fault (List (Node × Node) × Named)
  | [] => .ok ([], [])
  | (key, value) :: entries => do
    let (key, found) ← key.resolve handles named
    let (value, more) ← value.resolve handles (found ++ named)
    let (entries, most) ← resolveEntries handles (more ++ found ++ named) entries
    .ok ((key, value) :: entries, most ++ more ++ found)

end

end Written

end CodeAtlas.Yaml
