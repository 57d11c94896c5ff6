import CodeAtlas.Proofs.Pieces
import CodeAtlas.Text.Matcher
import Mathlib.Data.List.Basic
/-!
Matchers and the filler behind a text: blanks and opening braces. What a matcher finds in a text it
finds as well with filler behind it if its matches do not end among the filler
(`Settled.captures?_append`, `Settled.allMatches_append`).
-/
namespace CodeAtlas.Text

def isFiller (c : Char) : Bool :=
  isBlank c || c == '\x7b'

def fillerPoints : List Nat :=
  [9, 10, 11, 12, 13, 0x20, 0x85, 0xA0, 0x1680, 0x2000, 0x2001, 0x2002, 0x2003, 0x2004, 0x2005,
    0x2006, 0x2007, 0x2008, 0x2009, 0x200A, 0x2028, 0x2029, 0x202F, 0x205F, 0x3000, 0x7b]

theorem toNat_mem_fillerPoints {c : Char} (h : isFiller c = true) : c.toNat ∈ fillerPoints := by
  rw [isFiller, Bool.or_eq_true, beq_iff_eq] at h
  rcases h with hblank | rfl
  · simp only [isBlank, Bool.or_eq_true, Bool.and_eq_true, beq_iff_eq, decide_eq_true_eq] at hblank
    simp only [fillerPoints, List.mem_cons, List.not_mem_nil, or_false]
    omega
  · decide

/-- What no filler satisfies holds of other characters only. -/
theorem isFiller_eq_false {P : Char → Bool} (hP : ∀ n ∈ fillerPoints, P (Char.ofNat n) = false)
    {c : Char} (h : P c = true) : isFiller c = false := by
  rw [Bool.eq_false_iff]
  intro hfiller
  have hfalse := hP _ (toNat_mem_fillerPoints hfiller)
  rw [Char.ofNat_toNat, h] at hfalse
  cases hfalse

theorem isFiller_of_isWord {c : Char} (h : isWord c = true) : isFiller c = false :=
  isFiller_eq_false (P := isWord) (by decide +kernel) h

theorem isFiller_eq_false_of_any {s : List Char} (h : s.any isFiller = false) :
    ∀ c ∈ s, isFiller c = false :=
  fun c hc => Bool.not_eq_true _ |>.mp (List.any_eq_false.mp h c hc)

/-- A text begins with the same filler-free texts whatever filler stands behind it. -/
theorem prefix_append_iff {ext head : List Char} (hext : ∀ c ∈ ext, isFiller c = true)
    (hhead : ∀ c ∈ head, isFiller c = false) (s : List Char) : head <+: s ++ ext ↔ head <+: s := by
  refine ⟨fun h => ?_, fun h => h.trans (List.prefix_append s ext)⟩
  induction head generalizing s with
  | nil => exact List.nil_prefix
  | cons c head ih =>
    cases s with
    | nil =>
      have hfiller := hext c (h.subset List.mem_cons_self)
      rw [hhead c List.mem_cons_self] at hfiller
      cases hfiller
    | cons d s =>
      obtain ⟨hc, hbegins⟩ := List.cons_prefix_cons.mp h
      have hrest := ih (fun d hd => hhead d (List.mem_cons_of_mem c hd)) s hbegins
      exact List.cons_prefix_cons.mpr ⟨hc, hrest⟩

namespace Place

theorem eq_of {s t : Place} (hlast : s.last = t.last) (hrest : s.rest = t.rest)
    (hgroups : s.groups = t.groups) : s = t := by
  obtain ⟨last, rest, size, groups, hsize⟩ := s
  obtain ⟨last', rest', size', groups', hsize'⟩ := t
  obtain rfl : last = last' := hlast
  obtain rfl : rest = rest' := hrest
  obtain rfl : groups = groups' := hgroups
  obtain rfl : size = size' := hsize.trans hsize'.symm
  rfl

def extend (ext : List Char) (s : Place) : Place :=
  ⟨s.last, s.rest ++ ext, s.size + ext.length, s.groups, by rw [List.length_append, s.size_eq]⟩

@[simp] theorem extend_rest (ext : List Char) (s : Place) : (s.extend ext).rest = s.rest ++ ext :=
  rfl

theorem extend_size_lt_iff {ext : List Char} {s t : Place} :
    (t.extend ext).size < (s.extend ext).size ↔ t.size < s.size :=
  Nat.add_lt_add_iff_right

theorem before_append (last : Option Char) (s ext : List Char) :
    before last (s ++ ext) = (before last s).extend ext :=
  eq_of rfl rfl rfl

/-- Whether a place counts: each one does, or those before the last `n` characters. -/
def counts (whole : Bool) (n : Nat) (t : Place) : Bool :=
  whole || n < t.size

theorem counts_extend (whole : Bool) (ext : List Char) (t : Place) :
    (t.extend ext).counts whole ext.length = t.counts whole 0 := by
  simp [counts, extend]

theorem counts_false_of_suffix {whole : Bool} {n : Nat} {s t : Place} (h : t.rest <:+ s.rest)
    (hs : s.counts whole n = false) : t.counts whole n = false := by
  have hlen := h.length_le
  rw [← s.size_eq, ← t.size_eq] at hlen
  simp only [counts, Bool.or_eq_false_iff, decide_eq_false_iff_not] at hs ⊢
  exact ⟨hs.1, by omega⟩

end Place

namespace Matcher

/-- More text behind a place changes no match that counts. -/
structure Stable (whole : Bool) (p : Matcher) : Prop where
  forward : ∀ s, ∀ t ∈ p s, t.rest <:+ s.rest
  agree : ∀ ext, (∀ c ∈ ext, isFiller c = true) → ∀ s,
    (p (s.extend ext)).filter (Place.counts whole ext.length) =
      ((p s).filter (Place.counts whole 0)).map (Place.extend ext)

variable {whole : Bool} {p q : Matcher}

/-- Places that do not count lead to none that do. -/
theorem flatMap_filter_counts {n : Nat} {g : Place → List Place}
    (hg : ∀ t, ∀ u ∈ g t, u.rest <:+ t.rest) (places : List Place) :
    (places.flatMap g).filter (Place.counts whole n) =
      (places.filter (Place.counts whole n)).flatMap fun t =>
        (g t).filter (Place.counts whole n) := by
  rw [List.filter_flatMap, Pieces.flatMap_filter]
  intro t _ ht
  rw [List.filter_eq_nil_iff]
  intro u hu
  rw [Bool.not_eq_true]
  exact Place.counts_false_of_suffix (hg t u hu) ht

/-- Steps that agree on places that count lead to places that agree. -/
theorem flatMap_agree {ext : List Char} {extended places : List Place} {g g' : Place → List Place}
    (hg : ∀ t, ∀ u ∈ g t, u.rest <:+ t.rest) (hg' : ∀ t, ∀ u ∈ g' t, u.rest <:+ t.rest)
    (h : extended.filter (Place.counts whole ext.length) =
      (places.filter (Place.counts whole 0)).map (Place.extend ext))
    (hstep : ∀ t ∈ places, (g' (t.extend ext)).filter (Place.counts whole ext.length) =
      ((g t).filter (Place.counts whole 0)).map (Place.extend ext)) :
    (extended.flatMap g').filter (Place.counts whole ext.length) =
      ((places.flatMap g).filter (Place.counts whole 0)).map (Place.extend ext) := by
  rw [flatMap_filter_counts hg', flatMap_filter_counts hg, h, List.flatMap_map, List.map_flatMap]
  refine List.flatMap_congr fun t ht => ?_
  exact hstep t (List.mem_of_mem_filter ht)

theorem Stable.next (hp : Stable whole p) (hq : Stable whole q) : Stable whole (next p q) where
  forward s t ht := by
    obtain ⟨u, hu, ht⟩ := List.mem_flatMap.mp ht
    exact (hq.forward u t ht).trans (hp.forward s u hu)
  agree ext hext s :=
    flatMap_agree hq.forward hq.forward (hp.agree ext hext s) fun t _ => hq.agree ext hext t

theorem Stable.orElse (hp : Stable whole p) (hq : Stable whole q) :
    Stable whole (orElse p q) where
  forward s t ht := (List.mem_append.mp ht).elim (hp.forward s t) (hq.forward s t)
  agree ext hext s := by
    unfold Matcher.orElse
    rw [List.filter_append, List.filter_append, List.map_append, hp.agree ext hext,
      hq.agree ext hext]

theorem Stable.empty : Stable whole empty where
  forward s t ht := List.mem_singleton.mp ht ▸ List.suffix_rfl
  agree ext _ s := by
    rw [Matcher.empty, Matcher.empty, List.filter_singleton, List.filter_singleton,
      Place.counts_extend]
    cases s.counts whole 0 <;> rfl

theorem step?_eq_some {P : Char → Bool} {s t : Place} (h : step? P s = some t) :
    ∃ c, P c = true ∧ s.rest = c :: t.rest := by
  obtain ⟨last, rest, size, groups, hs⟩ := s
  cases rest with
  | nil => simp [step?] at h
  | cons c rest =>
    simp only [step?] at h
    split at h
    · rename_i hc
      obtain rfl := Option.some.inj h
      exact ⟨c, hc, rfl⟩
    · cases h

theorem step?_extend (P : Char → Bool) {ext : List Char} {s : Place} (h : s.rest ≠ []) :
    step? P (s.extend ext) = (step? P s).map (Place.extend ext) := by
  obtain ⟨last, rest, size, groups, hs⟩ := s
  cases rest with
  | nil => exact absurd rfl h
  | cons c rest =>
    simp only [step?, Place.extend, List.cons_append]
    split
    · exact congrArg some (Place.eq_of rfl rfl rfl)
    · rfl

/-- Behind a text there is only filler, and none of it counts. -/
theorem counts_false_of_step? {P : Char → Bool} {ext : List Char} {s t : Place}
    (hext : ∀ c ∈ ext, isFiller c = true) (hP : whole = true → ∀ c, P c = true → isFiller c = false)
    (hs : s.rest <:+ ext) (h : step? P s = some t) : t.counts whole ext.length = false := by
  obtain ⟨c, hc, hrest⟩ := step?_eq_some h
  have hfiller := hext c (hs.subset (hrest ▸ List.mem_cons_self))
  have hlen := hs.length_le
  rw [hrest, List.length_cons, ← t.size_eq] at hlen
  rw [Place.counts, Bool.or_eq_false_iff, decide_eq_false_iff_not]
  refine ⟨?_, by omega⟩
  rw [Bool.eq_false_iff]
  intro hwhole
  rw [hP hwhole c hc] at hfiller
  cases hfiller

/-- A single character is stable if filler is no such character, or only the places before the end
count. -/
theorem Stable.one {P : Char → Bool}
    (hP : whole = true → ∀ c, P c = true → isFiller c = false) : Stable whole (one P) where
  forward s t ht := by
    obtain ⟨c, -, hrest⟩ := step?_eq_some (Option.mem_toList.mp ht)
    exact hrest ▸ List.suffix_cons c t.rest
  agree ext hext s := by
    unfold Matcher.one
    -- Inside the text both steps take the same character; at its end the second one can only go
    -- into the filler, where no place counts.
    by_cases hs : s.rest = []
    · have hnone : step? P s = none := by
        cases h : step? P s with
        | none => rfl
        | some t =>
          obtain ⟨c, -, hrest⟩ := step?_eq_some h
          rw [hs] at hrest
          cases hrest
      rw [hnone, Option.toList_none, List.filter_nil, List.map_nil, List.filter_eq_nil_iff]
      intro t ht
      have hsuffix : (s.extend ext).rest <:+ ext := by simp [hs]
      rw [Bool.not_eq_true]
      exact counts_false_of_step? hext hP hsuffix (Option.mem_toList.mp ht)
    · rw [step?_extend P hs]
      cases step? P s with
      | none => rfl
      | some t => exact Stable.empty.agree ext hext t

/-- Capturing keeps a matcher stable. -/
theorem Stable.group (hp : Stable whole p) : Stable whole (group p) where
  forward s t ht := by
    obtain ⟨u, hu, rfl⟩ := List.mem_map.mp ht
    exact hp.forward s u hu
  agree ext hext s := by
    have hcounts (n : Nat) (s : Place) :
        ((Matcher.group p s).filter (Place.counts whole n)) =
          ((p s).filter (Place.counts whole n)).map fun t =>
            { t with groups := t.groups ++ [s.rest.take (s.size - t.size)] } := by
      rw [Matcher.group, List.filter_map]
      rfl
    rw [hcounts, hcounts, hp.agree ext hext, List.map_map, List.map_map]
    refine List.map_congr_left fun t _ => Place.eq_of rfl rfl ?_
    have htake : (s.rest ++ ext).take (s.size + ext.length - (t.size + ext.length)) =
        s.rest.take (s.size - t.size) := by
      rw [Nat.add_sub_add_right, List.take_append_of_le_length]
      rw [← s.size_eq]
      exact Nat.sub_le _ _
    exact congrArg (fun captured => t.groups ++ [captured]) htake

/-- The start of a text is where it is, whatever stands behind. -/
theorem Stable.textStart : Stable whole textStart where
  forward s t ht := by
    unfold Matcher.textStart at ht
    split at ht
    · exact List.mem_singleton.mp ht ▸ List.suffix_rfl
    · simp at ht
  agree ext hext s := by
    unfold Matcher.textStart
    by_cases h : s.last.isNone = true
    · rw [if_pos h, if_pos (show (s.extend ext).last.isNone = true from h)]
      exact Stable.empty.agree ext hext s
    · rw [if_neg h, if_neg (show ¬ (s.extend ext).last.isNone = true from h)]
      rfl

/-- Filler is no word, so it does not continue one. -/
theorem any_isWord_head?_append {ext : List Char} (hext : ∀ c ∈ ext, isFiller c = true)
    (s : List Char) : (s ++ ext).head?.any isWord = s.head?.any isWord := by
  cases s with
  | cons c s => rfl
  | nil =>
    cases ext with
    | nil => rfl
    | cons c ext =>
      rw [List.nil_append, List.head?_cons, List.head?_nil, Option.any_some, Option.any_none,
        Bool.eq_false_iff]
      intro hword
      have hfiller := hext c List.mem_cons_self
      rw [isFiller_of_isWord hword] at hfiller
      cases hfiller

/-- The end of a word stays one in front of filler. -/
theorem Stable.wordEdge : Stable whole wordEdge where
  forward s t ht := by
    unfold Matcher.wordEdge at ht
    split at ht
    · exact List.mem_singleton.mp ht ▸ List.suffix_rfl
    · simp at ht
  agree ext hext s := by
    have hsides : (((s.extend ext).last.any isWord) != ((s.extend ext).rest.head?.any isWord)) =
        ((s.last.any isWord) != (s.rest.head?.any isWord)) := by
      rw [Place.extend, any_isWord_head?_append hext]
    unfold Matcher.wordEdge
    rw [hsides]
    split
    · exact Stable.empty.agree ext hext s
    · rfl

theorem skip_suffix (P : Char → Bool) (s : Place) : (skip P s).rest <:+ s.rest := by
  fun_induction skip P s with
  | case1 s h => exact List.suffix_rfl
  | case2 s t h ih =>
    obtain ⟨c, -, hrest⟩ := step?_eq_some h
    exact ih.trans (hrest ▸ List.suffix_cons c t.rest)

theorem skip_of_step?_eq_some {P : Char → Bool} {s t : Place} (h : step? P s = some t) :
    skip P s = skip P t := by
  rw [skip]
  split
  · rename_i hnone
    rw [h] at hnone
    cases hnone
  · rename_i u hu
    rw [h] at hu
    rw [Option.some.inj hu]

theorem skip_of_step?_eq_none {P : Char → Bool} {s : Place} (h : step? P s = none) :
    skip P s = s := by
  rw [skip]
  split
  · rfl
  · rename_i hsome
    rw [h] at hsome
    cases hsome

/-- Blanks that end inside a text end there with filler behind it as well. -/
theorem Stable.blanks : Stable false blanks where
  forward s t ht := List.mem_singleton.mp ht ▸ skip_suffix isBlank s
  agree ext hext s := by
    unfold Matcher.blanks
    fun_induction skip isBlank s with
    | case1 s h =>
      by_cases hs : s.rest = []
      · have hlen := (skip_suffix isBlank (s.extend ext)).length_le
        rw [Place.extend_rest, hs, List.nil_append, ← (skip isBlank (s.extend ext)).size_eq] at hlen
        have hsize : s.size = 0 := by rw [s.size_eq, hs, List.length_nil]
        rw [List.filter_singleton, List.filter_singleton, Place.counts, Place.counts, hsize,
          Bool.false_or, decide_eq_false (Nat.not_lt.mpr hlen)]
        rfl
      · have hnone : step? isBlank (s.extend ext) = none := by
          rw [step?_extend isBlank hs, h, Option.map_none]
        rw [skip_of_step?_eq_none hnone]
        exact Stable.empty.agree ext hext s
    | case2 s t h ih =>
      obtain ⟨c, -, hrest⟩ := step?_eq_some h
      have hsome : step? isBlank (s.extend ext) = some (t.extend ext) := by
        rw [step?_extend isBlank (by simp [hrest]), h, Option.map_some]
      rw [skip_of_step?_eq_some hsome]
      exact ih

/-- The places that were met before are carried along. -/
theorem manyOnto_append (p : Matcher) (s : Place) (others more : List Place) :
    manyOnto p s (others ++ more) = manyOnto p s others ++ more := by
  -- The calls below are on shorter rests of the text, so the inner induction may use the lemma.
  have hfold : ∀ places found : List Place,
      places.foldr (fun t found => if t.size < s.size then manyOnto p t found else found)
          (found ++ more) =
        places.foldr (fun t found => if t.size < s.size then manyOnto p t found else found) found ++
          more := by
    intro places found
    induction places with
    | nil => rfl
    | cons t places ih =>
      rw [List.foldr_cons, List.foldr_cons, ih]
      split
      · exact manyOnto_append p t _ more
      · rfl
  rw [manyOnto, manyOnto, ← List.cons_append, hfold]
termination_by s.size

/-- The ends of repetitions are those behind one more of them, and the place itself. -/
theorem many_eq (p : Matcher) (s : Place) :
    many p s = ((p s).flatMap fun t => if t.size < s.size then many p t else []) ++ [s] := by
  rw [many, manyOnto]
  induction p s with
  | nil => rfl
  | cons t places ih =>
    rw [List.foldr_cons, ih, List.flatMap_cons, List.append_assoc]
    split
    · rw [many, ← manyOnto_append, List.nil_append]
    · rfl

/-- Repeating goes forward. -/
theorem many_suffix (hp : ∀ s, ∀ t ∈ p s, t.rest <:+ s.rest) (s : Place) :
    ∀ t ∈ many p s, t.rest <:+ s.rest := by
  induction h : s.size using Nat.strongRecOn generalizing s with
  | ind n ih =>
    intro t ht
    rw [many_eq] at ht
    rcases List.mem_append.mp ht with ht | ht
    · obtain ⟨u, hu, ht⟩ := List.mem_flatMap.mp ht
      split at ht
      · rename_i hlt
        exact (ih u.size (h ▸ hlt) u rfl t ht).trans (hp s u hu)
      · simp at ht
    · exact List.mem_singleton.mp ht ▸ List.suffix_rfl

/-- Repeating keeps a matcher stable. -/
theorem Stable.many (hp : Stable whole p) : Stable whole (many p) where
  forward := many_suffix hp.forward
  agree ext hext s := by
    have hmore (s t : Place) : ∀ u ∈ (if t.size < s.size then Matcher.many p t else []),
        u.rest <:+ t.rest := by
      intro u hu
      split at hu
      · exact many_suffix hp.forward t u hu
      · simp at hu
    -- By induction on the rest of the text, which each repetition makes shorter.
    induction h : s.size using Nat.strongRecOn generalizing s with
    | ind n ih =>
      have hbehind := flatMap_agree (hmore s) (hmore (s.extend ext)) (hp.agree ext hext s) (by
        intro t _
        by_cases hlt : t.size < s.size
        · rw [if_pos hlt, if_pos (Place.extend_size_lt_iff.mpr hlt)]
          exact ih t.size (h ▸ hlt) t rfl
        · rw [if_neg hlt, if_neg (Place.extend_size_lt_iff.not.mpr hlt)]
          rfl)
      have hself := (Stable.empty : Stable whole .empty).agree ext hext s
      rw [many_eq, many_eq, List.filter_append, List.filter_append, List.map_append, hbehind]
      exact congrArg _ hself

theorem Stable.inOrder {ps : List Matcher} (h : ∀ p ∈ ps, Stable whole p) :
    Stable whole (inOrder ps) := by
  induction ps with
  | nil => exact .empty
  | cons p ps ih =>
    exact .next (h p List.mem_cons_self) (ih fun q hq => h q (List.mem_cons_of_mem p hq))

theorem Stable.oneOf {ps : List Matcher} (h : ∀ p ∈ ps, Stable whole p) :
    Stable whole (oneOf ps) where
  forward s t ht := by
    obtain ⟨p, hp, ht⟩ := List.mem_flatMap.mp ht
    exact (h p hp).forward s t ht
  agree ext hext s := by
    unfold Matcher.oneOf
    rw [List.filter_flatMap, List.filter_flatMap, List.map_flatMap]
    exact List.flatMap_congr fun p hp => (h p hp).agree ext hext s

theorem Stable.maybe (hp : Stable whole p) : Stable whole (maybe p) :=
  hp.orElse .empty

theorem Stable.atLeastOne (hp : Stable whole p) : Stable whole (atLeastOne p) :=
  hp.next hp.many

theorem Stable.gap : Stable false gap :=
  .next (.one (by simp)) .blanks

theorem Stable.text {word : String}
    (h : whole = true → ∀ c ∈ word.toList, isFiller c = false) : Stable whole (text word) := by
  refine .inOrder ?_
  intro p hp
  obtain ⟨c, hc, rfl⟩ := List.mem_map.mp hp
  refine .one fun hwhole d hd => ?_
  obtain rfl := eq_of_beq hd
  exact h hwhole d hc

theorem Stable.keyword {words : List String}
    (h : whole = true → ∀ word ∈ words, ∀ c ∈ word.toList, isFiller c = false) :
    Stable whole (keyword words) := by
  refine .oneOf ?_
  intro p hp
  obtain ⟨word, hword, rfl⟩ := List.mem_map.mp hp
  exact .text fun hwhole => h hwhole word hword

/-- A matcher that has no match in front of filler. -/
def Solid (p : Matcher) : Prop :=
  ∀ s : Place, (∀ c ∈ s.rest, isFiller c = true) → p s = []

theorem Solid.behind (hp : Stable whole p) (hq : Solid q) : Solid (Matcher.next p q) := by
  intro s hs
  refine List.flatMap_eq_nil_iff.mpr fun t ht => hq t ?_
  exact fun c hc => hs c ((hp.forward s t ht).subset hc)

theorem Solid.before (hp : Solid p) : Solid (Matcher.next p q) := by
  intro s hs
  rw [Matcher.next, hp s hs, List.flatMap_nil]

/-- A matcher whose matches never end among the filler behind a text. -/
structure Settled (p : Matcher) : Prop where
  stable : Stable true p
  solid : Solid p

theorem filter_counts_true (n : Nat) (places : List Place) :
    places.filter (Place.counts true n) = places :=
  List.filter_eq_self.mpr fun _ _ => rfl

theorem Stable.extend (hp : Stable true p) {ext : List Char}
    (hext : ∀ c ∈ ext, isFiller c = true) (s : Place) :
    p (s.extend ext) = (p s).map (Place.extend ext) := by
  have hagree := hp.agree ext hext s
  rwa [filter_counts_true, filter_counts_true] at hagree

/-- Places in the filler behind a text do not lead on to a settled matcher. -/
theorem Settled.eq_nil (hq : Settled q) {text ext : List Char}
    (hext : ∀ c ∈ ext, isFiller c = true) {t : Place} (hs : t.rest <:+ text ++ ext)
    (ht : t.counts false ext.length = false) : q t = [] := by
  rw [Place.counts, Bool.false_or, decide_eq_false_iff_not, Nat.not_lt, t.size_eq] at ht
  have hsuffix := List.suffix_of_suffix_length_le hs (List.suffix_append text ext) ht
  exact hq.solid t fun c hc => hext c (hsuffix.subset hc)

/-- A settled matcher is settled behind any other. -/
theorem Settled.behind (hp : Stable false p) (hq : Settled q) : Settled (Matcher.next p q) where
  stable := by
    refine ⟨fun s t ht => ?_, fun ext hext s => ?_⟩
    · obtain ⟨u, hu, ht⟩ := List.mem_flatMap.mp ht
      exact (hq.stable.forward u t ht).trans (hp.forward s u hu)
    · -- Where `p` stops in the filler, `q` finds nothing, so those ends may be left out.
      have hextended : (p (s.extend ext)).flatMap q =
          ((p (s.extend ext)).filter (Place.counts false ext.length)).flatMap q :=
        (Pieces.flatMap_filter fun t ht => hq.eq_nil hext (hp.forward _ t ht)).symm
      have hplain : (p s).flatMap q = ((p s).filter (Place.counts false 0)).flatMap q := by
        refine (Pieces.flatMap_filter fun t ht => ?_).symm
        have hsuffix : t.rest <:+ s.rest ++ [] := by
          rw [List.append_nil]
          exact hp.forward s t ht
        exact hq.eq_nil (by simp) hsuffix
      unfold Matcher.next
      rw [hextended, hplain, hp.agree ext hext]
      refine flatMap_agree hq.stable.forward hq.stable.forward ?_ fun t _ =>
        hq.stable.agree ext hext t
      rw [filter_counts_true, filter_counts_true]
  solid := .behind hp hq.solid

/-- What begins with a settled matcher is settled. -/
theorem Settled.before (hp : Settled p) (hq : Stable true q) : Settled (Matcher.next p q) where
  stable := hp.stable.next hq
  solid := .before hp.solid

theorem Settled.one {P : Char → Bool} (hP : ∀ c, P c = true → isFiller c = false) :
    Settled (one P) where
  stable := .one fun _ => hP
  solid s hs := by
    unfold Matcher.one
    cases h : step? P s with
    | none => rfl
    | some t =>
      obtain ⟨c, hc, hrest⟩ := step?_eq_some h
      have hfiller := hs c (hrest ▸ List.mem_cons_self)
      rw [hP c hc] at hfiller
      cases hfiller

theorem Settled.group (hp : Settled p) : Settled (group p) where
  stable := hp.stable.group
  solid s hs := by
    rw [Matcher.group, hp.solid s hs, List.map_nil]

theorem Settled.atLeastOne (hp : Settled p) : Settled (atLeastOne p) :=
  hp.before hp.stable.many

theorem Settled.oneOf {ps : List Matcher} (h : ∀ p ∈ ps, Settled p) : Settled (oneOf ps) where
  stable := .oneOf fun p hp => (h p hp).stable
  solid s hs := List.flatMap_eq_nil_iff.mpr fun p hp => (h p hp).solid s hs

/-- A word without filler is settled. -/
theorem Settled.text {word : String} (hne : word.toList ≠ [])
    (h : word.toList.any isFiller = false) : Settled (text word) := by
  have hclear := isFiller_eq_false_of_any h
  have hstable : Stable true (Matcher.text word) := .text fun _ => hclear
  obtain ⟨c, rest, hword⟩ := List.exists_cons_of_ne_nil hne
  have hfirst : Settled (Matcher.one (· == c)) := .one fun d hd => by
    obtain rfl := eq_of_beq hd
    exact hclear d (hword ▸ List.mem_cons_self)
  refine ⟨hstable, ?_⟩
  rw [Matcher.text, hword, List.map_cons]
  exact .before hfirst.solid

theorem Settled.keyword {words : List String} (hne : ∀ word ∈ words, word.toList ≠ [])
    (h : ∀ word ∈ words, word.toList.any isFiller = false) : Settled (keyword words) := by
  refine .oneOf ?_
  intro p hp
  obtain ⟨word, hword, rfl⟩ := List.mem_map.mp hp
  exact .text (hne word hword) (h word hword)

/-! ### Searching -/

theorem Solid.findFrom_filler (hp : Solid p) {rest : List Char}
    (hrest : ∀ c ∈ rest, isFiller c = true) (last : Option Char) (size : Nat)
    (h : size = rest.length) : findFrom p last size rest h = none := by
  induction rest generalizing last size with
  | nil => rw [findFrom, hp _ hrest, List.head?_nil]
  | cons c rest ih =>
    rw [findFrom, hp _ hrest, List.head?_nil]
    exact ih (fun d hd => hrest d (List.mem_cons_of_mem c hd)) _ _ _

/-- The first match of a settled matcher is the same with filler behind the text. -/
theorem Settled.findFrom_append (hp : Settled p) {ext : List Char}
    (hext : ∀ c ∈ ext, isFiller c = true) (rest : List Char) (last : Option Char)
    (size size' : Nat) (h : size = rest.length) (h' : size' = (rest ++ ext).length) :
    findFrom p last size' (rest ++ ext) h' =
      (findFrom p last size rest h).map (Place.extend ext) := by
  -- One step for each start: either both texts have their match here, or the search goes on.
  induction rest generalizing last size size' with
  | nil =>
    have hend : findFrom p last size [] h = none := hp.solid.findFrom_filler (by simp) last size h
    rw [hend]
    exact hp.solid.findFrom_filler hext last size' h'
  | cons c rest ih =>
    have hplace : (⟨last, c :: (rest ++ ext), size', [], h'⟩ : Place) =
        Place.extend ext ⟨last, c :: rest, size, [], h⟩ := Place.eq_of rfl rfl rfl
    change findFrom p last size' (c :: (rest ++ ext)) h' = _
    rw [findFrom, findFrom, hplace, hp.stable.extend hext, List.head?_map]
    cases (p ⟨last, c :: rest, size, [], h⟩).head? with
    | some t => rfl
    | none => exact ih _ _ _ _ _

/-- What a settled matcher captures in a text does not change with filler behind the text. -/
theorem Settled.captures?_append (hp : Settled p) {ext : List Char}
    (hext : ∀ c ∈ ext, isFiller c = true) (s : List Char) :
    captures? p (s ++ ext) = captures? p s := by
  unfold captures? find?
  rw [hp.findFrom_append hext s none s.length _ rfl rfl, Option.map_map]
  rfl

theorem Solid.captures?_filler (hp : Solid p) {s : List Char}
    (hs : ∀ c ∈ s, isFiller c = true) : captures? p s = none := by
  rw [captures?, find?, hp.findFrom_filler hs, Option.map_none]

theorem Solid.findAll_filler (hp : Solid p) {rest : List Char}
    (hrest : ∀ c ∈ rest, isFiller c = true) (last : Option Char) : findAll p last rest = [] := by
  induction rest generalizing last with
  | nil => rw [findAll]
  | cons c rest ih =>
    rw [findAll, hp _ hrest, List.head?_nil]
    exact ih (fun d hd => hrest d (List.mem_cons_of_mem c hd)) _

/-- A settled matcher has the same matches in a text with filler behind it. -/
theorem Settled.findAll_append (hp : Settled p) {ext : List Char}
    (hext : ∀ c ∈ ext, isFiller c = true) (last : Option Char) (s : List Char) :
    findAll p last (s ++ ext) = findAll p last s := by
  have hhead (c : Char) (rest : List Char) (last : Option Char) :
      (p (Place.before last (c :: (rest ++ ext)))).head? =
        (p (Place.before last (c :: rest))).head?.map (Place.extend ext) := by
    rw [← List.cons_append, Place.before_append, hp.stable.extend hext, List.head?_map]
  fun_induction findAll p last s with
  | case1 last => exact hp.solid.findAll_filler hext last
  | case2 last c rest t ht hlt ih =>
    have htake : (c :: (rest ++ ext)).take
        ((rest ++ ext).length + 1 - (t.extend ext).rest.length) =
          (c :: rest).take (rest.length + 1 - t.rest.length) := by
      rw [Place.extend_rest, List.length_append, List.length_append, Nat.add_right_comm,
        Nat.add_sub_add_right, ← List.cons_append, List.take_append_of_le_length]
      exact Nat.sub_le _ _
    have hlt' : (t.extend ext).rest.length < (rest ++ ext).length + 1 := by
      rw [Place.extend_rest, List.length_append, List.length_append]
      omega
    rw [List.cons_append, findAll, hhead, ht]
    simp only [Option.map_some]
    rw [if_pos hlt', htake, ← ih]
    rfl
  | case3 last c rest t ht hlt ih =>
    have hlt' : ¬ (t.extend ext).rest.length < (rest ++ ext).length + 1 := by
      rw [Place.extend_rest, List.length_append, List.length_append]
      omega
    rw [List.cons_append, findAll, hhead, ht]
    simp only [Option.map_some]
    rw [if_neg hlt', ih]
  | case4 last c rest ht ih =>
    rw [List.cons_append, findAll, hhead, ht]
    exact ih

end Matcher

end CodeAtlas.Text
