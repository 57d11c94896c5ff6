/-!
White space and the cuts made at it. A blank is a character of the Unicode property White_Space;
trimming removes blanks at the ends of a text, and `words` are its maximal blank-free runs.
-/
namespace CodeAtlas.Text

/-- Membership in the Unicode property White_Space. -/
def isBlank (c : Char) : Bool :=
  let n := c.toNat
  (9 ≤ n && n ≤ 13) || n == 0x20 || n == 0x85 || n == 0xA0 || n == 0x1680 ||
    (0x2000 ≤ n && n ≤ 0x200A) || n == 0x2028 || n == 0x2029 || n == 0x202F || n == 0x205F ||
    n == 0x3000

def trimEndWhile (p : Char → Bool) (s : List Char) : List Char :=
  (s.reverse.dropWhile p).reverse

def trimWhile (p : Char → Bool) (s : List Char) : List Char :=
  trimEndWhile p (s.dropWhile p)

def trim (s : List Char) : List Char :=
  trimWhile isBlank s

/-- The maximal runs of characters outside `p`, the empty ones left out; `run` is the open run,
read backwards. -/
def runsAvoiding (p : Char → Bool) : List Char → List Char → List (List Char)
  | run, [] => if run.isEmpty then [] else [run.reverse]
  | run, c :: rest =>
    if p c then
      if run.isEmpty then runsAvoiding p [] rest else run.reverse :: runsAvoiding p [] rest
    else runsAvoiding p (c :: run) rest

def words (s : List Char) : List (List Char) :=
  runsAvoiding isBlank [] s

end CodeAtlas.Text
