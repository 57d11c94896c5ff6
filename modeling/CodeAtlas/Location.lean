import CodeAtlas.Path
/-!
Places in source text: a span of bytes with its lines and columns, and the file it lies in.
-/
namespace CodeAtlas

/-- A piece of a source text. Bytes count from zero and the end is not part of the span; lines and
columns count from one. -/
structure Span where
  startByte : Nat
  endByte : Nat
  startLine : Nat
  startCol : Nat
  endLine : Nat
  endCol : Nat
deriving DecidableEq, Repr, Inhabited

namespace Span

def ofLines (first last : Nat) : Span :=
  ⟨0, 0, first, 1, last, 1⟩

def lineCount (s : Span) : Nat :=
  s.endLine - s.startLine + 1

def text (s : Span) : String :=
  toString s.startLine ++ ":" ++ toString s.startCol

end Span

structure Location where
  file : Path
  span : Span
deriving DecidableEq, Repr, Inhabited

def Location.display (l : Location) : String :=
  l.file.text ++ ":" ++ l.span.text

end CodeAtlas
