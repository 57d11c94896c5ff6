import CodeAtlas.Decimal
/-!
JSON documents. The entries of an object keep the order in which they were written; `pretty` puts
each element on a line of its own, two blanks deeper than what holds it.
-/
namespace CodeAtlas

inductive Json where
  | null
  | bool (b : Bool)
  | number (n : Nat)
  | real (x : Float)
  | string (s : String)
  | array (items : List Json)
  | object (entries : List (String × Json))
deriving Inhabited

namespace Json

def ofOption {α : Type} (f : α → Json) : Option α → Json
  | none => null
  | some a => f a

def optional {α : Type} (key : String) (f : α → Json) (value : Option α) : List (String × Json) :=
  (value.map fun a => (key, f a)).toList

def strings (items : List String) : Json :=
  array (items.map string)

def hexByte (n : Nat) : List Char :=
  let digits := Nat.toDigits 16 n
  List.replicate (2 - digits.length) '0' ++ digits

def escaped (c : Char) : List Char :=
  if c = '"' ∨ c = '\\' then ['\\', c]
  else if c = '\n' then ['\\', 'n']
  else if c = '\r' then ['\\', 'r']
  else if c = '\t' then ['\\', 't']
  else if c = '\x08' then ['\\', 'b']
  else if c = '\x0c' then ['\\', 'f']
  else if c.toNat < 0x20 then "\\u00".toList ++ hexByte c.toNat
  else [c]

def quoted (s : String) : String :=
  String.ofList ('"' :: s.toList.flatMap escaped ++ ['"'])

def scalar : Json → String
  | null => "null"
  | bool b => if b then "true" else "false"
  | number n => toString n
  | real x => Decimal.shortest x
  | string s => quoted s
  | array _ => "[]"
  | object _ => "\x7b\x7d"

def indentation (depth : Nat) : String :=
  String.ofList (List.replicate (2 * depth) ' ')

mutual
def prettyAt (depth : Nat) : Json → String
  | array (item :: items) =>
    "[\n" ++ prettyItems (depth + 1) (item :: items) ++ "\n" ++ indentation depth ++ "]"
  | object (entry :: entries) =>
    "\x7b\n" ++ prettyEntries (depth + 1) (entry :: entries) ++ "\n" ++ indentation depth ++ "\x7d"
  | value => value.scalar

def prettyItems (depth : Nat) : List Json → String
  | [] => ""
  | [item] => indentation depth ++ prettyAt depth item
  | item :: items =>
    indentation depth ++ prettyAt depth item ++ ",\n" ++ prettyItems depth items

def prettyEntries (depth : Nat) : List (String × Json) → String
  | [] => ""
  | [(key, value)] => indentation depth ++ quoted key ++ ": " ++ prettyAt depth value
  | (key, value) :: entries =>
    indentation depth ++ quoted key ++ ": " ++ prettyAt depth value ++ ",\n" ++
      prettyEntries depth entries
end

def pretty (value : Json) : String :=
  prettyAt 0 value

end Json

end CodeAtlas
