/-!
YAML documents as values. A scalar remembers whether it was written without quotes, since only
plain scalars can be numbers, truth values or null. A value may have a tag, which matters only to
readers of values that can be left out or that are chosen from a few names.
-/
namespace CodeAtlas.Yaml

inductive Node where
  | scalar (plain : Bool) (text : String)
  | list (items : List Node)
  | mapping (entries : List (Node × Node))
  | tagged (tag : String) (value : Node)
deriving Repr, Inhabited

inductive Fault where
  | forbiddenCharacter
  /-- A quoted scalar without its end, or with a document border inside. -/
  | unclosedQuote
  | unknownEscape
  | tabIndentation
  | unexpectedCharacter
  /-- A value that stands where no value may, or deeper than its neighbours. -/
  | misplacedValue
  | unclosedFlow
  /-- A block scalar whose first line holds more than its marks and a comment. -/
  | malformedBlock
  /-- An anchor or alias without a name, or with more than a name. -/
  | malformedAnchor
  | unknownAnchor
  | malformedTag
  | unknownTagHandle
  /-- A second anchor or tag of a value, or any of an alias. -/
  | repeatedMark
  /-- A directive that means nothing, comes twice or has no document after it. -/
  | malformedDirective
  | severalDocuments
deriving DecidableEq, Repr, Inhabited

def Fault.message : Fault → String
  | forbiddenCharacter => "control characters are not allowed"
  | unclosedQuote => "found unexpected end of a quoted scalar"
  | unknownEscape => "found unknown escape character"
  | tabIndentation => "found a tab character that violates indentation"
  | unexpectedCharacter => "found character that cannot start any token"
  | misplacedValue => "mapping values are not allowed in this context"
  | unclosedFlow => "did not find expected ',' or closing bracket"
  | malformedBlock => "did not find expected comment or line break"
  | malformedAnchor => "did not find expected alphabetic or numeric character"
  | unknownAnchor => "unknown anchor"
  | malformedTag => "did not find expected tag URI"
  | unknownTagHandle => "found undefined tag handle"
  | repeatedMark => "did not find expected node content"
  | malformedDirective => "found unknown directive name"
  | severalDocuments => "deserializing from YAML containing more than one document is not supported"

namespace Node

def nothing : Node := scalar true ""

def untagged : Node → Node
  | tagged _ value => value
  | value => value

def text? (n : Node) : Option String :=
  match n.untagged with
  | scalar _ s => some s
  | _ => none

def plain? (n : Node) : Option String :=
  match n.untagged with
  | scalar true s => some s
  | _ => none

def nullWords : List String := ["~", "null", "Null", "NULL"]

def nullTag : String := "tag:yaml.org,2002:null"

def isNull (n : Node) : Bool :=
  match n.plain? with
  | some s => s.isEmpty || nullWords.contains s
  | none => false

/-- What a value that can be left out is: nothing, or itself. With a tag it is nothing only if the
tag says so, and then a word for nothing has to be there. -/
def optional? (n : Node) : Option (Option Node) :=
  match n with
  | tagged tag value =>
    if tag == nullTag && value.plain?.isSome then
      if value.plain?.any nullWords.contains then some none else none
    else some (some n)
  | _ => some (if n.isNull then none else some n)

/-- The name that a value chosen from a few names gives: its text, or what its tag has after an
exclamation mark, and then the value itself has to be nothing. -/
def choice? (n : Node) : Option String :=
  match n with
  | tagged tag value =>
    match tag.toList with
    | '!' :: name => if value.isNull then some (String.ofList name) else none
    | _ => value.text?
  | _ => n.text?

def truth? (n : Node) : Option Bool :=
  n.plain?.bind fun s =>
    if ["true", "True", "TRUE"].contains s then some true
    else if ["false", "False", "FALSE"].contains s then some false
    else none

def digitValue (c : Char) : Nat :=
  if c.isDigit then c.toNat - '0'.toNat
  else if 'a' ≤ c && c ≤ 'f' then c.toNat - 'a'.toNat + 10
  else if 'A' ≤ c && c ≤ 'F' then c.toNat - 'A'.toNat + 10
  else 16

def ofDigits? (base : Nat) (digits : List Char) : Option Nat :=
  if digits.isEmpty || digits.any fun c => base ≤ digitValue c then none
  else some (digits.foldl (fun n c => n * base + digitValue c) 0)

/-- The natural number of a plain scalar: decimal without a leading zero, or marked as
hexadecimal, octal or binary; a plus sign may come first. -/
def natural? (n : Node) : Option Nat :=
  n.plain?.bind fun s =>
    let digits := match s.toList with
      | '+' :: rest => rest
      | cs => cs
    match digits with
    | '0' :: 'x' :: rest => ofDigits? 16 rest
    | '0' :: 'o' :: rest => ofDigits? 8 rest
    | '0' :: 'b' :: rest => ofDigits? 2 rest
    | '0' :: _ :: _ => none
    | cs => ofDigits? 10 cs

end Node

end CodeAtlas.Yaml
