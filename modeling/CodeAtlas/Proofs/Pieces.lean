import Mathlib.Data.List.Flatten
import Mathlib.Data.List.Nodup
/-!
Lists that are put together from pieces. If some pieces hold less than they should, the whole shows
it (`eq_of_length_flatMap_le`, `flatMap_eq_iff_of_sublist`); elements that make no piece may be left
out (`flatMap_filter`), and if one alone makes a piece, that piece is the whole
(`filterMap_eq_toList`).
-/
namespace CodeAtlas.Pieces

variable {α β : Type}

/-- Lists that are no longer together than parts of them are these parts. -/
theorem eq_of_length_flatMap_le {f g : α → List β} {l : List α}
    (h : ∀ a ∈ l, (f a).Sublist (g a))
    (hlength : (l.flatMap g).length ≤ (l.flatMap f).length) : ∀ a ∈ l, f a = g a := by
  induction l with
  | nil => exact fun a ha => absurd ha List.not_mem_nil
  | cons b l ih =>
    have hb := h b List.mem_cons_self
    have hl : ∀ a ∈ l, (f a).Sublist (g a) := fun a ha => h a (List.mem_cons_of_mem b ha)
    have hfirst := hb.length_le
    have hrest := (List.Sublist.flatMap_right l hl).length_le
    rw [List.flatMap_cons, List.flatMap_cons, List.length_append, List.length_append] at hlength
    intro a ha
    rcases List.mem_cons.mp ha with rfl | ha
    · apply hb.eq_of_length
      omega
    · apply ih hl _ a ha
      omega

/-- Parts that are left out of some lists are left out of the lists together. -/
theorem flatMap_eq_iff_of_sublist {f g : α → List β} {l : List α}
    (h : ∀ a ∈ l, (f a).Sublist (g a)) :
    l.flatMap f = l.flatMap g ↔ ∀ a ∈ l, f a = g a := by
  constructor
  · exact fun heq => eq_of_length_flatMap_le h (Nat.le_of_eq (congrArg List.length heq.symm))
  · exact List.flatMap_congr

/-- Elements that make nothing may be left out. -/
theorem flatMap_filter {keep : α → Bool} {g : α → List β} {l : List α}
    (h : ∀ a ∈ l, keep a = false → g a = []) : (l.filter keep).flatMap g = l.flatMap g := by
  induction l with
  | nil => rfl
  | cons b l ih =>
    rw [List.filter_cons, List.flatMap_cons, ← ih fun a ha => h a (List.mem_cons_of_mem b ha)]
    split
    · rw [List.flatMap_cons]
    · rename_i hkeep
      rw [h b List.mem_cons_self (Bool.eq_false_iff.mpr hkeep), List.nil_append]

/-- Where one element of a list alone makes something, this is all that the list makes. -/
theorem filterMap_eq_toList {f : α → Option β} {l : List α} {a : α} (ha : a ∈ l)
    (hdistinct : l.Nodup) (h : ∀ b ∈ l, b ≠ a → f b = none) : l.filterMap f = (f a).toList := by
  obtain ⟨before, after, rfl⟩ := List.append_of_mem ha
  obtain ⟨-, hafter, hapart⟩ := List.nodup_append.mp hdistinct
  have hbefore : before.filterMap f = [] := by
    rw [List.filterMap_eq_nil_iff]
    exact fun b hb => h b (List.mem_append_left _ hb) fun heq =>
      hapart b hb a List.mem_cons_self heq
  have hrest : after.filterMap f = [] := by
    rw [List.filterMap_eq_nil_iff]
    exact fun b hb => h b (List.mem_append_right _ (List.mem_cons_of_mem a hb)) fun heq =>
      (List.nodup_cons.mp hafter).1 (heq ▸ hb)
  rw [List.filterMap_append, hbefore, List.nil_append]
  cases hfa : f a with
  | none => rw [List.filterMap_cons_none hfa, hrest]; rfl
  | some b => rw [List.filterMap_cons_some hfa, hrest]; rfl

end CodeAtlas.Pieces
