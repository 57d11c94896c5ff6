/-!
Sorted lists without repetitions, built one element at a time.
-/
namespace CodeAtlas.Ordered

/-- Puts an element in its place unless one that counts as equal is there already. -/
def insert {α : Type} (le : α → α → Bool) (x : α) : List α → List α
  | [] => [x]
  | y :: ys =>
    if le x y then if le y x then y :: ys else x :: y :: ys else y :: insert le x ys

def ofList {α : Type} (le : α → α → Bool) (xs : List α) : List α :=
  xs.foldl (fun found x => insert le x found) []

def strings (xs : List String) : List String :=
  ofList (fun a b => !decide (b < a)) xs

end CodeAtlas.Ordered
