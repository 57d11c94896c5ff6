import CodeAtlas.Glob.Reader
import CodeAtlas.Text.Quoted
/-!
Glob patterns. A pattern is read once into its parts and then tested against whole texts.
-/
namespace CodeAtlas

structure Glob where
  tokens : List Glob.Token
deriving Repr, Inhabited

namespace Glob

/-- Reads a pattern; the first fault from the left counts. -/
def read (pattern : String) : Except Fault Glob :=
  ((pattern.toList.foldlM Reader.step Reader.start).bind Reader.finish).map Glob.mk

def complaint (pattern : String) (fault : Fault) : String :=
  "invalid glob pattern " ++ Text.quoted pattern ++ ": error parsing glob '" ++ pattern ++ "': " ++
    fault.reason

/-- Whether the bytes are a text of the pattern. Two stars alone admit every text. A text that
ends in a dot has neither file name nor extension, so no pattern that asks for one admits it. -/
def admits (g : Glob) (bytes : List UInt8) : Bool :=
  match g.tokens with
  | [.leading] => true
  | tokens =>
    !(bytes.getLast? == some 0x2E && tokens.getLast?.bind Token.char? == some '.' &&
        Token.asksForName tokens) &&
      (sequenceShape tokens).accepts bytes

def admitsText (g : Glob) (text : String) : Bool :=
  g.admits (textBytes text)

end Glob

end CodeAtlas
