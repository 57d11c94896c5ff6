import CodeAtlas.Glob
import Mathlib.Tactic.Common
/-!
Patterns that end in a slash and stars. Such a pattern admits every text that goes on after a slash
from a text it admits, so it cannot admit a directory or one entry of it without admitting all
entries (`admits_entry`).
-/
namespace CodeAtlas.Glob

/-- The ends of patterns that stand for a slash and anything behind it: a star crosses slashes, so
that one does as well as two. -/
inductive IsBelow : List Token → Prop
  | stars : IsBelow [.trailing]
  | star : IsBelow [.char '/', .anyRun]

def coversBelow (g : Glob) : Bool :=
  match g.tokens.reverse with
  | [.leading] => true
  | .trailing :: _ => true
  | .anyRun :: .char '/' :: _ => true
  | _ => false

/-- A pattern that covers all that lies below is the lone wild part or ends in one. -/
theorem coversBelow_cases {g : Glob} (h : g.coversBelow = true) :
    g.tokens = [.leading] ∨ ∃ front back, IsBelow back ∧ g.tokens = front ++ back := by
  unfold coversBelow at h
  split at h
  · rename_i heq
    exact .inl (by simpa using congrArg List.reverse heq)
  · rename_i rest heq
    exact .inr ⟨rest.reverse, _, .stars, by rw [← List.reverse_cons, ← heq, List.reverse_reverse]⟩
  · rename_i rest heq
    refine .inr ⟨rest.reverse, _, .star, ?_⟩
    rw [← List.reverse_reverse g.tokens, heq, List.reverse_cons, List.reverse_cons,
      List.append_assoc, List.singleton_append]
  · cases h

theorem has_single (b c : UInt8) : (ByteClass.single b).has c = true ↔ c = b := by
  have hcompare : (ByteClass.single b).has c = (decide (b ≤ c) && decide (c ≤ b)) := by
    simp [ByteClass.single, ByteClass.has]
  rw [hcompare, Bool.and_eq_true, decide_eq_true_eq, decide_eq_true_eq]
  constructor
  · intro h
    exact UInt8.le_antisymm h.2 h.1
  · rintro rfl
    exact ⟨UInt8.le_refl c, UInt8.le_refl c⟩

/-- The texts of parts in a row are texts of the first ones and then texts of the others. -/
theorem sequenceShape_append (front back : List Token) (s : List UInt8) :
    (sequenceShape (front ++ back)).Spells s ↔
      ∃ p r, s = p ++ r ∧ (sequenceShape front).Spells p ∧ (sequenceShape back).Spells r := by
  induction front generalizing s with
  | nil => simp [sequenceShape, Shape.Spells]
  | cons t front ih =>
    rw [List.cons_append, sequenceShape, Shape.andThen_spells]
    constructor
    · rintro ⟨p, q, rfl, hp, hq⟩
      obtain ⟨q, r, rfl, hq, hr⟩ := (ih q).mp hq
      refine ⟨p ++ q, r, (List.append_assoc ..).symm, ?_, hr⟩
      rw [sequenceShape, Shape.andThen_spells]
      exact ⟨p, q, rfl, hp, hq⟩
    · rintro ⟨pq, r, rfl, hpq, hr⟩
      rw [sequenceShape, Shape.andThen_spells] at hpq
      obtain ⟨p, q, rfl, hp, hq⟩ := hpq
      exact ⟨p, q ++ r, List.append_assoc .., hp, (ih _).mpr ⟨q, r, rfl, hq, hr⟩⟩

/-- What such an end matches is a slash with anything behind it. -/
theorem IsBelow.spells {back : List Token} (h : IsBelow back) (s : List UInt8) :
    (sequenceShape back).Spells s ↔ ∃ r, s = 0x2F :: r := by
  have hshape : sequenceShape back = .seq .slash .run := by
    cases h with
    | stars => simp [sequenceShape, Token.shape, Shape.andThen]
    | star =>
      have hslash : charBytes '/' = [0x2F] := by decide
      simp [sequenceShape, Token.shape, Shape.literal, Shape.andThen, Shape.slash, hslash]
  rw [hshape]
  constructor
  · rintro ⟨_, r, rfl, ⟨b, rfl, hb⟩, -⟩
    exact ⟨r, by rw [(has_single _ _).mp hb, List.singleton_append]⟩
  · rintro ⟨r, rfl⟩
    exact ⟨[0x2F], r, rfl, ⟨0x2F, rfl, (has_single _ _).mpr rfl⟩, trivial⟩

/-- What a pattern that ends in a slash and stars admits. -/
theorem IsBelow.admits_iff {g : Glob} {front back : List Token} (hback : IsBelow back)
    (h : g.tokens = front ++ back) (bytes : List UInt8) :
    g.admits bytes = true ↔ ∃ p r, bytes = p ++ 0x2F :: r ∧ (sequenceShape front).Spells p := by
  obtain ⟨last, hlast, hother, hchar⟩ : ∃ last, g.tokens.getLast? = some last ∧
      last ≠ .leading ∧ last.char? = none := by
    cases hback with
    | stars => exact ⟨_, by rw [h, List.getLast?_concat], by simp, rfl⟩
    | star => exact ⟨_, by rw [h, List.append_cons, List.getLast?_concat], by simp, rfl⟩
  have haccepts : g.admits bytes = (sequenceShape g.tokens).accepts bytes := by
    unfold admits
    split
    · rename_i heq
      rw [heq] at hlast
      exact absurd (Option.some.inj hlast).symm hother
    · simp [hlast, hchar]
  rw [haccepts, Shape.accepts_iff, h, sequenceShape_append]
  simp only [hback.spells]
  constructor
  · rintro ⟨p, _, rfl, hp, r, rfl⟩
    exact ⟨p, r, rfl, hp⟩
  · rintro ⟨p, r, rfl, hp⟩
    exact ⟨p, _, rfl, hp, r, rfl⟩

/-- A pattern that covers what lies below admits every entry of a directory if it admits the
directory or one entry. -/
theorem admits_entry {g : Glob} (hg : g.coversBelow = true) {dir entry : List UInt8}
    (hentry : 0x2F ∉ entry) (h : g.admits dir = true ∨ g.admits (dir ++ 0x2F :: entry) = true)
    (other : List UInt8) : g.admits (dir ++ 0x2F :: other) = true := by
  rcases coversBelow_cases hg with hall | ⟨front, back, hback, hfront⟩
  · unfold admits
    rw [hall]
  · rw [hback.admits_iff hfront, hback.admits_iff hfront] at h
    rw [hback.admits_iff hfront]
    rcases h with ⟨p, r, rfl, hp⟩ | ⟨p, r, heq, hp⟩
    · exact ⟨p, r ++ 0x2F :: other, by simp, hp⟩
    · -- The slash of the pattern is the last one, or it lies within the directory.
      rcases List.append_eq_append_iff.mp heq with ⟨more, rfl, hmore⟩ | ⟨more, rfl, hmore⟩
      · cases more with
        | nil => exact ⟨dir, other, rfl, by simpa using hp⟩
        | cons b more =>
          rw [List.cons_append, List.cons.injEq] at hmore
          exact absurd (hmore.2 ▸ by simp) hentry
      · cases more with
        | nil => exact ⟨p, other, by simp, hp⟩
        | cons b more =>
          rw [List.cons_append, List.cons.injEq] at hmore
          obtain ⟨rfl, -⟩ := hmore
          exact ⟨p, more ++ 0x2F :: other, by simp, hp⟩

end CodeAtlas.Glob
