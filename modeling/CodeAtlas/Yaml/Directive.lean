import CodeAtlas.Yaml.BlockScalar
import CodeAtlas.Yaml.Mark
/-!
Directives before a document: the version of the format, which has to be 1.1 or 1.2, and handles of
tags.
-/
namespace CodeAtlas.Yaml

structure Directives where
  versioned : Bool := false
  handles : Handles := []
deriving Repr, Inhabited

namespace Directives

def allHandles (d : Directives) : Handles := d.handles ++ defaultHandles

def versionNumber (text : List Char) : Except Fault (Nat × List Char) :=
  let digits := text.takeWhile Char.isDigit
  if digits.length ≤ 9 then
    match Node.ofDigits? 10 digits with
    | some n => .ok (n, text.drop digits.length)
    | none => .error .malformedDirective
  else .error .malformedDirective

def withVersion (d : Directives) (text : List Char) : Except Fault (Directives × List Char) := do
  let (major, text) ← versionNumber (text.dropWhile isSpace)
  match text with
  | '.' :: text =>
    let (minor, text) ← versionNumber text
    if d.versioned || major != 1 || (minor != 1 && minor != 2) then .error .malformedDirective
    else .ok ({ d with versioned := true }, text)
  | _ => .error .malformedDirective

def withHandle (d : Directives) (text : List Char) : Except Fault (Directives × List Char) :=
  match text.dropWhile isSpace with
  | '!' :: text => do
    let name := text.takeWhile isNameChar
    let (handle, text) ←
      match text.drop name.length with
      | '!' :: text => .ok ("!" ++ String.ofList name ++ "!", text)
      | text => if name.isEmpty then .ok ("!", text) else .error .malformedDirective
    if !text.head?.any isSpace then .error .malformedDirective
    else
      let (start, text) ← someTagText true (text.dropWhile isSpace)
      if !wordEnds text || (d.handles.lookup handle).isSome then .error .malformedDirective
      else .ok ({ d with handles := (handle, start) :: d.handles }, text)
  | _ => .error .malformedDirective

def withLine (d : Directives) (text : List Char) : Except Fault (Directives × List Char) := do
  let name := (text.drop 1).takeWhile isNameChar
  let text := text.drop (name.length + 1)
  if !wordEnds text then .error .malformedDirective
  else
    let (d, text) ←
      match String.ofList name with
      | "YAML" => d.withVersion text
      | "TAG" => d.withHandle text
      | _ => .error .malformedDirective
    .ok (d, ← afterLine text)

def readFrom (d : Directives) : Nat → Place → Except Fault (Directives × Place)
  | 0, _ => .error .malformedDirective
  | n + 1, p =>
    if isBorder '-' p then .ok (d, p)
    else if p.column == 0 && p.head? == some '%' then do
      let (d, text) ← d.withLine p.rest
      d.readFrom n (blockGap false ⟨0, text⟩).1
    else .error .malformedDirective

end Directives

end CodeAtlas.Yaml
