import CodeAtlas.Glob.Shape
/-!
The parts of a glob pattern and the byte texts that they stand for. Stars and question marks also
cross slashes; characters stand for their UTF-8 bytes.
-/
namespace CodeAtlas.Glob

inductive Token where
  | char (c : Char)
  /-- A question mark: one byte. -/
  | anyByte
  /-- A star: any bytes. -/
  | anyRun
  /-- Brackets: one byte of a class, given by ranges of characters. -/
  | oneOf (negated : Bool) (ranges : List (Char × Char))
  /-- Two stars at the start: nothing, a slash, or anything that ends in a slash. -/
  | leading
  /-- Two stars at the end: a slash and anything after it. -/
  | trailing
  /-- Two stars between slashes: one slash, or two with anything between them. -/
  | between
  /-- Braces: one of the branches. -/
  | group (branches : List (List Token))
deriving Repr, Inhabited

def charBytes (c : Char) : List UInt8 :=
  String.utf8EncodeChar c

def textBytes (s : String) : List UInt8 :=
  s.toList.flatMap charBytes

/-- The ranges of bytes that a range of characters puts into a class: the bytes of a single
character one by one; for two characters all bytes between the last of the lower one and the first
of the upper one, and the other bytes one by one. -/
def byteRanges (r : Char × Char) : List (UInt8 × UInt8) :=
  let alone (bytes : List UInt8) := bytes.map fun b => (b, b)
  if r.1 = r.2 then alone (charBytes r.1)
  else
    match (charBytes r.1).reverse, charBytes r.2 with
    | low :: before, high :: after => alone before.reverse ++ [(low, high)] ++ alone after
    | _, _ => []

namespace Shape

def slash : Shape := byte (ByteClass.single 0x2F)

def literal (bytes : List UInt8) : Shape :=
  bytes.foldr (fun b rest => (byte (ByteClass.single b)).andThen rest) empty

/-- One of several shapes; empty ones do not count, and with no other the group is empty. -/
def oneOf (branches : List Shape) : Shape :=
  match branches.filter (· ≠ empty) with
  | [] => empty
  | first :: rest => rest.foldl either first

end Shape

mutual

def Token.shape : Token → Shape
  | .char c => Shape.literal (charBytes c)
  | .anyByte => .byte ByteClass.all
  | .anyRun => .run
  | .oneOf negated ranges => .byte ⟨negated, ranges.flatMap byteRanges⟩
  | .leading => .either (.either .empty .slash) (.seq .run .slash)
  | .trailing => .seq .slash .run
  | .between => .either .slash (.seq .slash (.seq .run .slash))
  | .group branches => Shape.oneOf (branchShapes branches)

def sequenceShape : List Token → Shape
  | [] => .empty
  | t :: rest => t.shape.andThen (sequenceShape rest)

def branchShapes : List (List Token) → List Shape
  | [] => []
  | b :: rest => sequenceShape b :: branchShapes rest

end

namespace Token

def char? : Token → Option Char
  | char c => some c
  | _ => none

def chars? (tokens : List Token) : Option (List Char) :=
  tokens.mapM char?

/-- Whether a pattern that ends in a dot is looked up by the name or the extension of a file: it
is no fixed text, and no fixed tail either that reaches beyond the last dot and, behind two stars,
into the directories. -/
def asksForName : List Token → Bool
  | leading :: anyRun :: rest | anyRun :: rest =>
    match chars? rest with
    | some tail => tail == ['.']
    | none => true
  | leading :: rest =>
    match chars? rest with
    | some tail => !tail.contains '/'
    | none => true
  | tokens => (chars? tokens).isNone

end Token

end CodeAtlas.Glob
