import CodeAtlas.Text.Cut
import Mathlib.Data.List.Chain
/-!
Pairs of characters in a text. Replacing a pair by another character leaves none of it
(`noPair_replacePair`) and makes no other one (`NoPair.replacePair`), a text without the pair stays
as it is (`NoPair.replacePair_eq`), and two texts may be treated apart if the pair does not stand
where they meet (`replacePair_append`).
-/
namespace CodeAtlas.Text

theorem replacePair_ne_nil (a b r : Char) {s : List Char} (h : s ≠ []) :
    replacePair a b r s ≠ [] := by
  fun_cases replacePair a b r s with
  | case1 => exact List.cons_ne_nil _ _
  | case2 => exact List.cons_ne_nil _ _
  | case3 => exact h

/-- The last character of a text with a pair replaced is the replacement or that of the text. -/
theorem getLast?_replacePair (a b r : Char) (s : List Char) :
    (replacePair a b r s).getLast? = some r ∨
      (replacePair a b r s).getLast? = s.getLast? := by
  have hcons (c : Char) {rest : List Char} (h : rest ≠ []) :
      (c :: rest).getLast? = rest.getLast? := by
    obtain ⟨d, more, rfl⟩ := List.exists_cons_of_ne_nil h
    exact List.getLast?_cons_cons
  fun_induction replacePair a b r s with
  | case1 c d rest hpair ih =>
    by_cases hrest : rest = []
    · rw [hrest]
      exact .inl rfl
    · rwa [hcons r (replacePair_ne_nil a b r hrest), hcons c (List.cons_ne_nil d rest),
        hcons d hrest]
  | case2 c d rest hpair ih =>
    rwa [hcons c (replacePair_ne_nil a b r (List.cons_ne_nil d rest)),
      hcons c (List.cons_ne_nil d rest)]
  | case3 s hshort => exact .inr rfl

theorem head?_replacePair (a b r : Char) (s : List Char) :
    (replacePair a b r s).head? = some r ∨ (replacePair a b r s).head? = s.head? := by
  fun_cases replacePair a b r s with
  | case1 => exact .inl rfl
  | case2 => exact .inr rfl
  | case3 => exact .inr rfl

/-- A pair is replaced in two texts apart if it does not stand where they meet. -/
theorem replacePair_append {a b : Char} (r : Char) {s t : List Char}
    (h : s.getLast? ≠ some a ∨ t.head? ≠ some b) :
    replacePair a b r (s ++ t) = replacePair a b r s ++ replacePair a b r t := by
  fun_induction replacePair a b r s with
  | case1 c d rest hpair ih =>
    rw [List.cons_append, List.cons_append, replacePair, if_pos hpair, List.cons_append, ih]
    refine h.imp_left fun hlast hrest => hlast ?_
    cases rest with
    | nil => cases hrest
    | cons e rest => simpa using hrest
  | case2 c d rest hpair ih =>
    rw [List.cons_append, List.cons_append, replacePair, if_neg hpair, List.cons_append,
      ← List.cons_append, ih]
    rwa [List.getLast?_cons_cons] at h
  | case3 s hshort =>
    -- A pair across the border is the last character of one text and the first of the other.
    match s, hshort with
    | [], _ => rfl
    | [c], _ =>
      cases t with
      | nil => rfl
      | cons d t =>
        rw [List.singleton_append, replacePair, if_neg, List.singleton_append]
        rintro ⟨rfl, rfl⟩
        simp at h
    | c :: d :: rest, hshort => exact absurd rfl (hshort c d rest)

/-- A character that is in neither place of the pair stays. -/
theorem mem_replacePair {a b c : Char} (r : Char) {s : List Char} (h : c ∈ s) (ha : c ≠ a)
    (hb : c ≠ b) : c ∈ replacePair a b r s := by
  fun_induction replacePair a b r s with
  | case1 d e rest hpair ih =>
    refine List.mem_cons_of_mem r (ih ?_)
    have hrest := (List.mem_cons.mp h).resolve_left fun heq => ha (heq.trans hpair.1)
    exact (List.mem_cons.mp hrest).resolve_left fun heq => hb (heq.trans hpair.2)
  | case2 d e rest hpair ih =>
    rcases List.mem_cons.mp h with rfl | hrest
    · exact List.mem_cons_self
    · exact List.mem_cons_of_mem d (ih hrest)
  | case3 s hshort => exact h

/-- A character stands nowhere in a text right in front of another one. -/
def NoPair (a b : Char) (s : List Char) : Prop :=
  s.IsChain fun c d => ¬ (c = a ∧ d = b)

section NoPair

variable {a b r : Char} {s : List Char}

theorem noPair_iff : NoPair a b s ↔ ¬ [a, b] <:+: s := by
  rw [NoPair, List.isChain_iff_forall_rel_of_append_cons_cons]
  constructor
  · rintro h ⟨front, back, rfl⟩
    exact h (List.append_assoc front [a, b] back) ⟨rfl, rfl⟩
  · rintro h c d front back rfl ⟨rfl, rfl⟩
    exact h ⟨front, back, List.append_assoc front [c, d] back⟩

theorem noPair_of_notMem (b : Char) (h : a ∉ s) : NoPair a b s :=
  noPair_iff.mpr fun hpair => h (hpair.subset List.mem_cons_self)

theorem NoPair.mono {t : List Char} (h : NoPair a b t) (hs : s <:+: t) : NoPair a b s :=
  noPair_iff.mpr fun hpair => noPair_iff.mp h (hpair.trans hs)

/-- Of a pair that is replaced, none is left. -/
theorem noPair_replacePair (ha : r ≠ a) (hb : r ≠ b) (s : List Char) :
    NoPair a b (replacePair a b r s) := by
  fun_induction replacePair a b r s with
  | case1 c d rest hpair ih => exact List.isChain_cons.mpr ⟨fun _ _ h => ha h.1, ih⟩
  | case2 c d rest hpair ih =>
    refine List.isChain_cons.mpr ⟨fun e he h => ?_, ih⟩
    rcases head?_replacePair a b r (d :: rest) with hhead | hhead
    · rw [hhead, Option.mem_some_iff] at he
      exact hb (he.trans h.2)
    · rw [hhead, List.head?_cons, Option.mem_some_iff] at he
      exact hpair ⟨h.1, he.trans h.2⟩
  | case3 s hshort =>
    match s, hshort with
    | [], _ => exact List.isChain_nil
    | [c], _ => exact List.isChain_singleton c
    | c :: d :: rest, hshort => exact absurd rfl (hshort c d rest)

/-- The replacement of a pair makes no other pair that the replacing character is no half of. -/
theorem NoPair.replacePair (h : NoPair a b s) (ha : r ≠ a) (hb : r ≠ b) (c d : Char) :
    NoPair a b (replacePair c d r s) := by
  fun_induction Text.replacePair c d r s with
  | case1 x y rest hpair ih =>
    exact List.isChain_cons.mpr ⟨fun _ _ hab => ha hab.1, ih (List.IsChain.tail h).tail⟩
  | case2 x y rest hpair ih =>
    obtain ⟨hfirst, hrest⟩ := List.isChain_cons.mp h
    refine List.isChain_cons.mpr ⟨fun e he hab => ?_, ih hrest⟩
    rcases head?_replacePair c d r (y :: rest) with hhead | hhead
    · rw [hhead, Option.mem_some_iff] at he
      exact hb (he.trans hab.2)
    · rw [hhead] at he
      exact hfirst e he hab
  | case3 s hshort => exact h

theorem NoPair.replaceChar (h : NoPair a b s) (ha : r ≠ a) (hb : r ≠ b) (c : Char) :
    NoPair a b (replaceChar c r s) := by
  have hkept {x y : Char} (hy : r ≠ y) (heq : (if x = c then r else x) = y) : x = y := by
    split at heq
    · exact absurd heq hy
    · exact heq
  exact List.isChain_map_of_isChain _ (fun x y hxy hab => hxy ⟨hkept ha hab.1, hkept hb hab.2⟩) h

theorem NoPair.replacePair_eq (h : NoPair a b s) (r : Char) : Text.replacePair a b r s = s := by
  fun_induction Text.replacePair a b r s with
  | case1 c d rest hpair ih => exact absurd hpair ((List.isChain_cons.mp h).1 d rfl)
  | case2 c d rest hpair ih => rw [ih (List.IsChain.tail h)]
  | case3 s hshort => rfl

/-- Joining texts without a pair by a character that is no half of it makes none. -/
theorem noPair_join {sep : Char} (ha : sep ≠ a) (hb : sep ≠ b) {parts : List (List Char)}
    (h : ∀ part ∈ parts, NoPair a b part) : NoPair a b (join [sep] parts) := by
  fun_induction join [sep] parts with
  | case1 => exact List.isChain_nil
  | case2 part => exact h part List.mem_cons_self
  | case3 part parts hne ih =>
    obtain ⟨hpart, hparts⟩ := List.forall_mem_cons.mp h
    have hend : NoPair a b (part ++ [sep]) :=
      hpart.append (List.isChain_singleton sep) fun x _ y hy hab =>
        hb ((Option.mem_some_iff.mp hy).trans hab.2)
    refine hend.append (ih hparts) fun x hx y _ hab => ?_
    rw [List.getLast?_concat, Option.mem_some_iff] at hx
    exact ha (hx.trans hab.1)

end NoPair

end CodeAtlas.Text
