/-!
Sums of a figure over a list. The total of two lists together is the sum of their totals.
-/
namespace CodeAtlas

def total {α : Type} (figure : α → Nat) : List α → Nat
  | [] => 0
  | x :: xs => figure x + total figure xs

theorem total_append {α : Type} (figure : α → Nat) (xs ys : List α) :
    total figure (xs ++ ys) = total figure xs + total figure ys := by
  induction xs with
  | nil => simp [total]
  | cons x xs ih =>
    simp only [List.cons_append, total, ih]
    omega

theorem total_map {α β : Type} (figure : β → Nat) (f : α → β) (xs : List α) :
    total figure (xs.map f) = total (figure ∘ f) xs := by
  induction xs with
  | nil => rfl
  | cons x xs ih => simp only [List.map_cons, total, ih, Function.comp_apply]

end CodeAtlas
