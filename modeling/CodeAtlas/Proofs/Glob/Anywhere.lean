import CodeAtlas.Proofs.Glob.Covering
import Mathlib.Data.List.Basic
/-!
Patterns that ask for a name anywhere: two stars and a slash, the name, and a slash and two stars.
Such a pattern admits a text exactly if the name stands between its slashes and something follows
(`admits_anywhere_iff`).
-/
namespace CodeAtlas.Glob

section Pieces

variable {α : Type} {sep : α}

/-- What is written in front of the last pieces ends in a separator, if there is anything. -/
theorem exists_intercalate_append (sep : α) (front : List (List α)) {back : List (List α)}
    (hback : back ≠ []) : ∃ lead, [sep].intercalate (front ++ back) =
      lead ++ [sep].intercalate back ∧ (lead = [] ∨ ∃ q, lead = q ++ [sep]) := by
  induction front with
  | nil => exact ⟨[], rfl, .inl rfl⟩
  | cons first front ih =>
    obtain ⟨lead, hlead, hends⟩ := ih
    have hne : front ++ back ≠ [] := List.append_ne_nil_of_right_ne_nil front hback
    refine ⟨first ++ [sep] ++ lead, ?_, .inr ?_⟩
    · rw [List.cons_append, List.intercalate_cons_of_ne_nil hne, hlead]
      simp only [List.append_assoc]
    · rcases hends with rfl | ⟨q, rfl⟩
      · exact ⟨first, List.append_nil _⟩
      · exact ⟨first ++ [sep] ++ q, (List.append_assoc ..).symm⟩

/-- A piece without separators stands in front of a separator, and at the start or behind another
one, exactly if it is one of the pieces but the last. -/
theorem exists_between_iff [BEq α] [LawfulBEq α] {w s : List α} (hw : sep ∉ w) :
    (∃ lead rest, s = lead ++ (w ++ sep :: rest) ∧ (lead = [] ∨ ∃ q, lead = q ++ [sep])) ↔
      w ∈ (s.splitOn sep).dropLast := by
  constructor
  · rintro ⟨lead, rest, rfl, hlead⟩
    have hpieces : (w ++ sep :: rest).splitOn sep = w :: rest.splitOn sep :=
      List.splitOn_append_cons_self_of_not_mem hw rest
    have hmem : w ∈ (w :: rest.splitOn sep).dropLast := by
      rw [List.dropLast_cons_of_ne_nil (List.splitOn_ne_nil sep rest)]
      exact List.mem_cons_self
    rcases hlead with rfl | ⟨q, rfl⟩
    · rwa [List.nil_append, hpieces]
    · have hne : w :: rest.splitOn sep ≠ [] := List.cons_ne_nil _ _
      rw [List.append_assoc, List.singleton_append, List.splitOn_append_cons_self, hpieces,
        List.dropLast_append_of_ne_nil hne]
      exact List.mem_append_right _ hmem
  · intro hmem
    obtain ⟨front, back, hsplit⟩ := List.append_of_mem hmem
    have hne : s.splitOn sep ≠ [] := List.splitOn_ne_nil sep s
    obtain ⟨later, hlater, hpieces⟩ : ∃ later, later ≠ [] ∧
        s.splitOn sep = front ++ w :: later := by
      refine ⟨back ++ [(s.splitOn sep).getLast hne], List.concat_ne_nil _ _, ?_⟩
      conv_lhs => rw [← List.dropLast_concat_getLast hne, hsplit]
      rw [List.append_assoc, List.cons_append]
    obtain ⟨lead, hlead, hends⟩ :=
      exists_intercalate_append sep front (List.cons_ne_nil w later)
    refine ⟨lead, [sep].intercalate later, ?_, hends⟩
    calc s = [sep].intercalate (s.splitOn sep) := (List.intercalate_splitOn sep).symm
      _ = lead ++ [sep].intercalate (w :: later) := by rw [hpieces, hlead]
      _ = lead ++ (w ++ sep :: [sep].intercalate later) := by
        rw [List.intercalate_cons_of_ne_nil hlater, List.append_assoc, List.singleton_append]

end Pieces

/-- No character but the slash has the byte of a slash in it. -/
theorem slash_mem_charBytes {c : Char} : 0x2F ∈ charBytes c ↔ c = '/' := by
  constructor
  · intro h
    have hbyte (n : Nat) (hn : (0x2F : UInt8) = UInt8.ofNat n) : n % 256 = 47 := by
      have htoNat := congrArg UInt8.toNat hn
      rw [UInt8.toNat_ofNat'] at htoNat
      exact htoNat.symm
    unfold charBytes String.utf8EncodeChar at h
    have hval : c.val.toNat = 47 := by
      dsimp only at h
      split at h
      · have := hbyte _ (List.mem_singleton.mp h)
        omega
      · exfalso
        split at h
        · simp only [List.mem_cons, List.not_mem_nil, or_false] at h
          rcases h with h | h <;> have := hbyte _ h <;> omega
        · split at h
          · simp only [List.mem_cons, List.not_mem_nil, or_false] at h
            rcases h with h | h | h <;> have := hbyte _ h <;> omega
          · simp only [List.mem_cons, List.not_mem_nil, or_false] at h
            rcases h with h | h | h | h <;> have := hbyte _ h <;> omega
    apply Char.ext
    apply UInt32.toNat_inj.mp
    exact hval
  · rintro rfl
    decide

theorem slash_mem_textBytes {s : String} : 0x2F ∈ textBytes s ↔ '/' ∈ s.toList := by
  simp [textBytes, List.mem_flatMap, slash_mem_charBytes]

theorem textBytes_injective : Function.Injective textBytes := by
  intro s t h
  have hencode : s.toList.utf8Encode = t.toList.utf8Encode := by
    unfold List.utf8Encode
    exact congrArg List.toByteArray h
  rw [← String.toByteArray_ofList, ← String.toByteArray_ofList, String.ofList_toList,
    String.ofList_toList] at hencode
  exact String.toByteArray_inj.mp hencode


def signs : List Char :=
  ['?', '*', '[', '\x7b', '\x7d', ',', '\\']

theorem takePlain_char (r : Reader) {c : Char} (hc : c ∉ signs) :
    r.takePlain c = .ok (r.push (.char c)) := by
  simp only [signs, List.mem_cons, List.not_mem_nil, or_false, not_or] at hc
  obtain ⟨h1, h2, h3, h4, h5, h6, h7⟩ := hc
  unfold Reader.takePlain
  split
  all_goals first | rfl | contradiction

/-- Characters that are no signs are read as themselves. -/
theorem foldlM_chars {cs : List Char} (hcs : ∀ c ∈ cs, c ∉ signs) (tokens : List Token)
    (last : Option Char) : ∃ last', cs.foldlM Reader.step ⟨tokens, [], .plain, last⟩ =
      .ok ⟨(cs.map Token.char).reverse ++ tokens, [], .plain, last'⟩ := by
  induction cs generalizing tokens last with
  | nil => exact ⟨last, rfl⟩
  | cons c cs ih =>
    obtain ⟨last', hlast⟩ := ih (fun d hd => hcs d (List.mem_cons_of_mem c hd))
      (.char c :: tokens) (some c)
    refine ⟨last', ?_⟩
    have hstep : Reader.step ⟨tokens, [], .plain, last⟩ c =
        .ok ⟨.char c :: tokens, [], .plain, some c⟩ := by
      change (Reader.takePlain _ c).map _ = _
      rw [takePlain_char _ (hcs c List.mem_cons_self)]
      rfl
    rw [List.foldlM_cons, hstep]
    change cs.foldlM Reader.step _ = _
    rw [hlast, List.map_cons, List.reverse_cons, List.append_assoc, List.singleton_append]

/-- Two stars and a slash, a name without signs, and a slash and two stars. -/
theorem read_anywhere {name : String} (hname : ∀ c ∈ name.toList, c ∉ signs) :
    read ("**/" ++ name ++ "/**") =
      .ok ⟨.leading :: name.toList.map Token.char ++ [.trailing]⟩ := by
  have hstart : "**/".toList.foldlM Reader.step .start =
      .ok ⟨[.leading], [], .plain, some '/'⟩ := rfl
  obtain ⟨last, hchars⟩ := foldlM_chars hname [.leading] (some '/')
  have hfinish (tokens : List Token) :
      ("/**".toList.foldlM Reader.step ⟨tokens, [], .plain, last⟩).bind Reader.finish =
        .ok (.trailing :: tokens).reverse := rfl
  have hok (r : Reader) (f : Reader → Except Fault Reader) : (Except.ok r >>= f) = f r := rfl
  unfold read
  rw [String.toList_append, String.toList_append, List.foldlM_append, List.foldlM_append, hstart,
    hok, hchars, hok, hfinish]
  simp [Except.map]

/-- A literal matches itself and nothing else. -/
theorem literal_spells (bytes s : List UInt8) : (Shape.literal bytes).Spells s ↔ s = bytes := by
  induction bytes generalizing s with
  | nil => exact Iff.rfl
  | cons b bytes ih =>
    have hshape : Shape.literal (b :: bytes) =
        (Shape.byte (ByteClass.single b)).andThen (Shape.literal bytes) := rfl
    rw [hshape, Shape.andThen_spells]
    constructor
    · rintro ⟨_, r, rfl, ⟨c, rfl, hc⟩, hr⟩
      rw [(has_single b c).mp hc, (ih r).mp hr, List.singleton_append]
    · rintro rfl
      exact ⟨[b], bytes, rfl, ⟨b, rfl, (has_single b b).mpr rfl⟩, (ih bytes).mpr rfl⟩

/-- Characters in a row stand for their bytes. -/
theorem chars_spells (cs : List Char) (s : List UInt8) :
    (sequenceShape (cs.map Token.char)).Spells s ↔ s = cs.flatMap charBytes := by
  induction cs generalizing s with
  | nil => simp [sequenceShape, Shape.Spells]
  | cons c cs ih =>
    rw [List.map_cons, sequenceShape, Shape.andThen_spells, List.flatMap_cons]
    constructor
    · rintro ⟨p, r, rfl, hp, hr⟩
      rw [Token.shape, literal_spells] at hp
      rw [hp, (ih r).mp hr]
    · rintro rfl
      refine ⟨charBytes c, cs.flatMap charBytes, rfl, ?_, (ih _).mpr rfl⟩
      rw [Token.shape, literal_spells]

/-- A leading wild part matches nothing, or whatever ends at a slash. -/
theorem leading_spells (s : List UInt8) :
    Token.leading.shape.Spells s ↔ s = [] ∨ ∃ q, s = q ++ [0x2F] := by
  have hslash (r : List UInt8) : Shape.slash.Spells r ↔ r = [0x2F] := by
    constructor
    · rintro ⟨b, rfl, hb⟩
      rw [(has_single _ _).mp hb]
    · rintro rfl
      exact ⟨0x2F, rfl, (has_single _ _).mpr rfl⟩
  rw [Token.shape]
  constructor
  · rintro ((hnone | hone) | ⟨q, r, rfl, -, hr⟩)
    · exact .inl hnone
    · exact .inr ⟨[], (hslash s).mp hone⟩
    · exact .inr ⟨q, by rw [(hslash r).mp hr]⟩
  · rintro (rfl | ⟨q, rfl⟩)
    · exact .inl (.inl rfl)
    · exact .inr ⟨q, [0x2F], rfl, trivial, (hslash _).mpr rfl⟩

/-- A pattern that asks for a name anywhere admits a text exactly if the name stands between its
slashes and something follows. -/
theorem admits_anywhere_iff {name : String} (hname : '/' ∉ name.toList) (bytes : List UInt8) :
    (Glob.mk (.leading :: name.toList.map Token.char ++ [.trailing])).admits bytes = true ↔
      textBytes name ∈ (bytes.splitOn 0x2F).dropLast := by
  have hslash : 0x2F ∉ textBytes name := fun hmem => hname (slash_mem_textBytes.mp hmem)
  rw [IsBelow.stars.admits_iff rfl, ← exists_between_iff hslash]
  constructor
  · rintro ⟨p, rest, rfl, hp⟩
    rw [sequenceShape, Shape.andThen_spells] at hp
    obtain ⟨lead, written, rfl, hlead, hwritten⟩ := hp
    rw [chars_spells] at hwritten
    rw [leading_spells] at hlead
    exact ⟨lead, rest, by rw [hwritten, List.append_assoc, textBytes], hlead⟩
  · rintro ⟨lead, rest, rfl, hlead⟩
    refine ⟨lead ++ textBytes name, rest, (List.append_assoc ..).symm, ?_⟩
    rw [sequenceShape, Shape.andThen_spells]
    exact ⟨lead, textBytes name, rfl, (leading_spells lead).mpr hlead, (chars_spells _ _).mpr rfl⟩

end CodeAtlas.Glob
