/-!
Texts in columns, counted in characters.
-/
namespace CodeAtlas.Text

def padRight (width : Nat) (s : String) : String :=
  s ++ String.ofList (List.replicate (width - s.length) ' ')

def padLeft (width : Nat) (s : String) : String :=
  String.ofList (List.replicate (width - s.length) ' ') ++ s

end CodeAtlas.Text
