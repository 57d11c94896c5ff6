import CodeAtlas.Complexity
import CodeAtlas.Proofs.Text.Parts
import CodeAtlas.Text.Utf8
/-!
Lines of a text and of its bytes. Reading bytes as text keeps every newline and makes no other one
(`firstChar_newline`), so that both have the same number of lines (`length_lines_lossy`).
-/
namespace CodeAtlas

namespace Text

theorem length_fields (sep : Char) (s : List Char) : (fields sep s).length = s.count sep + 1 := by
  induction s with
  | nil => rfl
  | cons c s ih =>
    rw [fields_cons]
    by_cases hc : c = sep
    · rw [if_pos hc, List.length_cons, ih, hc, List.count_cons_self]
    · rw [if_neg hc, List.length_modifyHead, ih, List.count_cons_of_ne hc]

theorem all_getLast?_of_notMem {s : List Char} (h : '\n' ∉ s) :
    s.getLast?.all (· == '\n') = s.isEmpty := by
  cases hlast : s.getLast? with
  | none =>
    rw [List.getLast?_eq_none_iff.mp hlast]
    rfl
  | some c =>
    have hmem : c ∈ s := List.mem_of_getLast? hlast
    have hc : c ≠ '\n' := fun heq => h (heq ▸ hmem)
    rw [Option.all_some, beq_false_of_ne hc,
      List.isEmpty_eq_false_iff.mpr (List.ne_nil_of_mem hmem)]

theorem all_getLast?_append {back : List Char} (front : List Char) (h : '\n' ∉ back) :
    (front ++ '\n' :: back).getLast?.all (· == '\n') = back.isEmpty := by
  cases back with
  | nil =>
    rw [List.getLast?_concat]
    rfl
  | cons c back =>
    rw [← all_getLast?_of_notMem h, List.getLast?_append_of_ne_nil _ (List.cons_ne_nil _ _),
      List.getLast?_cons_cons]

/-- A text has as many lines as newlines, and one more if something stands behind the last. -/
theorem length_lines (s : List Char) :
    (lines s).length = s.count '\n' + if s.getLast?.all (· == '\n') then 0 else 1 := by
  unfold lines
  rcases notMem_or_eq_append_last '\n' s with hnone | ⟨front, back, rfl, hback⟩
  · rw [fields_of_notMem hnone, List.count_eq_zero.mpr hnone, all_getLast?_of_notMem hnone]
    cases s <;> rfl
  · rw [fields_append_cons, fields_of_notMem hback, List.count_append, List.count_cons_self,
      List.count_eq_zero.mpr hback, all_getLast?_append front hback]
    cases back <;> simp [length_fields]

namespace Utf8

/-- The further bytes of a character are no ASCII, and with the first of them its number is past
that of the newline. -/
theorem announces_spec {b low high : UInt8} {n : Nat} (h : announces b = some (n, low, high)) :
    0x80 ≤ low ∧ (b < 0x80 ∧ n = 0 ∨ 0x80 ≤ b ∧ 0 < n ∧
      ∀ t, low ≤ t → t ≤ high → 10 < payload b n * 0x40 + t.toNat % 0x40) := by
  unfold announces at h
  simp only [UInt8.le_iff_toNat_le, UInt8.lt_iff_toNat_lt, beq_iff_eq, ← UInt8.toNat_inj,
    UInt8.reduceToNat] at h ⊢
  repeat' split at h
  all_goals cases h
  all_goals
    simp only [payload, UInt8.reduceToNat]
    first
      | exact ⟨by omega, .inl ⟨by omega, trivial⟩⟩
      | exact ⟨by omega, .inr ⟨by omega, by omega, fun t ht ht' => by omega⟩⟩

/-- The continuation bytes are taken from the front. -/
theorem begins_with_tails (n : Nat) (low high : UInt8) (bytes : List UInt8) :
    tails n low high bytes <+: bytes := by
  induction bytes generalizing n low high with
  | nil => cases n <;> exact List.prefix_rfl
  | cons b bytes ih =>
    cases n with
    | zero => exact List.nil_prefix
    | succ n =>
      rw [tails]
      split
      · exact List.cons_prefix_cons.mpr ⟨rfl, ih n _ _⟩
      · exact List.nil_prefix

/-- A continuation byte is no ASCII. -/
theorem le_of_mem_tails {n : Nat} {low high t : UInt8} {bytes : List UInt8} (hlow : 0x80 ≤ low)
    (ht : t ∈ tails n low high bytes) : 0x80 ≤ t := by
  induction bytes generalizing n low high with
  | nil => cases n <;> cases ht
  | cons b bytes ih =>
    cases n with
    | zero => cases ht
    | succ n =>
      rw [tails] at ht
      split at ht
      case isTrue hb =>
        rw [Bool.and_eq_true, decide_eq_true_eq, decide_eq_true_eq] at hb
        rcases List.mem_cons.mp ht with rfl | ht
        · exact UInt8.le_trans hlow hb.1
        · exact ih (by decide) ht
      case isFalse => cases ht

/-- Only the tenth code point is the newline. -/
theorem ofNat_eq_newline_iff (v : Nat) : Char.ofNat v = '\n' ↔ v = 10 := by
  constructor
  · intro h
    by_cases hvalid : v.isValidChar
    · have hval : (Char.ofNat v).toNat = v := by
        rw [Char.ofNat, dif_pos hvalid]
        rfl
      rw [h] at hval
      exact hval.symm
    · rw [Char.ofNat, dif_neg hvalid] at h
      exact absurd h (by decide)
  · rintro rfl
    rfl

theorem le_foldl_tails (v : Nat) (bytes : List UInt8) :
    v ≤ bytes.foldl (fun v t => v * 0x40 + t.toNat % 0x40) v := by
  induction bytes generalizing v with
  | nil => exact Nat.le_refl v
  | cons t bytes ih =>
    have hle := ih (v * 0x40 + t.toNat % 0x40)
    rw [List.foldl_cons]
    omega

/-- A character of several bytes is no newline. -/
theorem value_large {b low high : UInt8} {n : Nat} {rest : List UInt8} (hn : 0 < n)
    (hlarge : ∀ t, low ≤ t → t ≤ high → 10 < payload b n * 0x40 + t.toNat % 0x40)
    (hlength : (tails n low high rest).length = n) :
    10 < (tails n low high rest).foldl (fun v t => v * 0x40 + t.toNat % 0x40) (payload b n) := by
  match n, rest, hn with
  | n + 1, [], _ => cases hlength
  | n + 1, t :: rest, _ =>
    rw [tails] at hlength ⊢
    split at hlength
    case isTrue ht =>
      rw [if_pos ht, List.foldl_cons]
      rw [Bool.and_eq_true, decide_eq_true_eq, decide_eq_true_eq] at ht
      have hall := le_foldl_tails (payload b (n + 1) * 0x40 + t.toNat % 0x40)
        (tails n 0x80 0xBF rest)
      exact Nat.lt_of_lt_of_le (hlarge t ht.1 ht.2) hall
    case isFalse => cases hlength

/-- The first character of a text is a newline exactly if its first byte is one, and no other byte
of it is. -/
theorem firstChar_newline (b : UInt8) (rest : List UInt8) :
    ((firstChar b rest).1 = '\n' ↔ b = 10) ∧ (b = 10 → (firstChar b rest).2 = 0) ∧
      ∀ t ∈ rest.take (firstChar b rest).2, t ≠ 10 := by
  have hreplacement : replacement ≠ '\n' := by decide
  unfold firstChar
  cases hannounces : announces b with
  | none =>
    have hb : b ≠ 10 := by
      rintro rfl
      exact absurd hannounces (by decide)
    exact ⟨iff_of_false hreplacement hb, fun h => absurd h hb, by simp⟩
  | some a =>
    obtain ⟨n, low, high⟩ := a
    obtain ⟨hlow, hcase⟩ := announces_spec hannounces
    rcases hcase with ⟨-, rfl⟩ | ⟨hb, hn, hlarge⟩
    · have hnil : tails 0 low high rest = [] := by cases rest <;> rfl
      dsimp only
      rw [hnil, List.foldl_nil, payload, if_pos List.length_nil, ofNat_eq_newline_iff,
        ← UInt8.toNat_inj]
      exact ⟨Iff.rfl, fun _ => rfl, fun t ht => absurd ht List.not_mem_nil⟩
    · have hb' : b ≠ 10 := by
        rintro rfl
        exact absurd hb (by decide)
      have htails : ∀ t ∈ rest.take (tails n low high rest).length, t ≠ 10 := by
        rw [← List.prefix_iff_eq_take.mp (begins_with_tails n low high rest)]
        rintro t ht rfl
        exact absurd (le_of_mem_tails hlow ht) (by decide)
      dsimp only
      split
      case isTrue hlength =>
        have hvalue := value_large hn hlarge hlength
        refine ⟨iff_of_false ?_ hb', fun h => absurd h hb', ?_⟩
        · rw [ofNat_eq_newline_iff]
          omega
        · rwa [hlength] at htails
      case isFalse => exact ⟨iff_of_false hreplacement hb', fun h => absurd h hb', htails⟩

/-- Decoding keeps the number of newlines. -/
theorem count_decode (bytes : List UInt8) : (decode bytes).count '\n' = bytes.count 10 := by
  induction bytes using decode.induct with
  | case1 => rw [decode]; rfl
  | case2 b rest c n hfirst ih =>
    obtain ⟨hnewline, -, htails⟩ := firstChar_newline b rest
    rw [hfirst] at hnewline htails
    dsimp only at hnewline htails
    have hcount : rest.count 10 = (rest.drop n).count 10 := by
      have hnone : (rest.take n).count 10 = 0 :=
        List.count_eq_zero.mpr fun hmem => htails 10 hmem rfl
      conv_lhs => rw [← List.take_append_drop n rest]
      rw [List.count_append, hnone, Nat.zero_add]
    rw [decode, hfirst]
    dsimp only
    rw [List.count_cons, List.count_cons, ih, hcount]
    by_cases hb : b = 10
    · simp [hb, hnewline.mpr hb]
    · simp [hb, mt hnewline.mp hb]

/-- Decoding keeps whether a text ends with a newline. -/
theorem getLast?_decode (bytes : List UInt8) :
    (decode bytes).getLast?.all (· == '\n') = bytes.getLast?.all (· == 10) := by
  induction bytes using decode.induct with
  | case1 => rw [decode]; rfl
  | case2 b rest c n hfirst ih =>
    obtain ⟨hnewline, hsingle, htails⟩ := firstChar_newline b rest
    rw [hfirst] at hnewline hsingle htails
    dsimp only at hnewline hsingle htails
    rw [decode, hfirst]
    dsimp only
    by_cases hdrop : rest.drop n = []
    · rw [hdrop, decode, List.getLast?_singleton, List.getLast?_cons, Option.all_some,
        Option.all_some, Bool.eq_iff_iff, beq_iff_eq, beq_iff_eq, hnewline]
      cases hlast : rest.getLast? with
      | none => exact Iff.rfl
      | some t =>
        have ht : t ∈ rest := List.mem_of_getLast? hlast
        have htake : rest.take n = rest := List.take_of_length_le (List.drop_eq_nil_iff.mp hdrop)
        refine iff_of_false ?_ (htails t (htake.symm ▸ ht))
        intro hb
        rw [hsingle hb, List.drop_zero] at hdrop
        rw [hdrop] at ht
        cases ht
    · have hdecode : decode (rest.drop n) ≠ [] := by
        obtain ⟨b', rest', hrest⟩ := List.exists_cons_of_ne_nil hdrop
        rw [hrest, decode]
        exact List.cons_ne_nil _ _
      have hrest : rest.getLast? = (rest.drop n).getLast? := by
        conv_lhs => rw [← List.take_append_drop n rest]
        exact List.getLast?_append_of_ne_nil _ hdrop
      rw [← List.singleton_append, List.getLast?_append_of_ne_nil _ hdecode, ih, ← hrest,
        ← List.singleton_append, List.getLast?_append_of_ne_nil]
      rintro rfl
      exact hdrop (List.drop_nil)

end Utf8

end Text

/-- The lines are counted by their ends, and an unfinished last one counts too. -/
theorem countLines_eq (bytes : ByteArray) : countLines bytes =
    bytes.toList.count 10 + if bytes.toList.getLast?.all (· == 10) then 0 else 1 := by
  unfold countLines
  dsimp only
  split
  case h_1 hlast =>
    rw [hlast, List.getLast?_eq_none_iff.mp hlast]
    rfl
  case h_2 hlast =>
    rw [hlast]
    rfl
  case h_3 b hb hlast =>
    rw [hlast, Option.all_some, beq_false_of_ne hb]
    rfl

/-- The text of some bytes has as many lines as the bytes. -/
theorem length_lines_lossy (bytes : ByteArray) :
    (Text.lines (Text.Utf8.lossy bytes).toList).length = countLines bytes := by
  rw [Text.length_lines, countLines_eq, Text.Utf8.lossy, String.toList_ofList,
    Text.Utf8.count_decode, Text.Utf8.getLast?_decode]

end CodeAtlas
