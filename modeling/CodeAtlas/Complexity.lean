/-!
Cyclomatic complexity. A text has complexity one plus the number of its decision points, counted
in 32 bits.
-/
namespace CodeAtlas

inductive Decision where
  | branch
  | loop
  | case
  | conjunction
  | disjunction
  | ternary
  | handler
deriving DecidableEq, Repr, Inhabited

namespace Decision

/-- The decision points by the labels that a census of a text gives them; any other label marks
none. -/
def ofLabel? : String → Option Decision
  | "if" => some branch
  | "loop" => some loop
  | "case" => some case
  | "and" => some conjunction
  | "or" => some disjunction
  | "ternary" => some ternary
  | "catch" => some handler
  | _ => none

end Decision

def complexityOf (decisions : Nat) : UInt32 :=
  1 + UInt32.ofNat decisions

structure FileMetrics where
  cyclomatic : UInt32
  lines : Nat
  nestingDepth : Nat
deriving DecidableEq, Repr, Inhabited

def FileMetrics.none : FileMetrics :=
  ⟨0, 0, 0⟩

/-- The number of lines; a newline at the very end opens no line. -/
def countLines (bytes : ByteArray) : Nat :=
  let newlines := bytes.toList.count 10
  match bytes.toList.getLast? with
  | Option.none => 0
  | some 10 => newlines
  | some _ => newlines + 1

end CodeAtlas
