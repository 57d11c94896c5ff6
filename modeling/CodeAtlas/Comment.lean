import CodeAtlas.Text.Cut
/-!
The text of comments without the marks that make them comments.
-/
namespace CodeAtlas.Comment

/-- The marks that open a comment, the longer ones before those they begin with. -/
def openers : List (List Char) :=
  ["///".toList, "//!".toList, "//".toList, "/**".toList, "/*".toList, ['#']]

def cleanLine (line : List Char) : List Char :=
  let line := Text.trim line
  let line := (openers.findSome? fun o => Text.after? o line).getD line
  let line := (Text.before? ['*', '/'] line).getD line
  Text.trim (line.dropWhile (· == '*'))

def clean (s : String) : String :=
  String.ofList
    (Text.join ['\n'] (((Text.lines s.toList).map cleanLine).filter fun line => !line.isEmpty))

end CodeAtlas.Comment
