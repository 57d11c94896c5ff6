import CodeAtlas.Outline
import CodeAtlas.Proofs.Text.Filler
import CodeAtlas.Proofs.Text.Trim
/-!
What the patterns of outlines make of filler behind a line, such as the opening brace of a body.
Imports, declarations and decision points are the same without it.
-/
namespace CodeAtlas.Outline

open Text Text.Matcher

/-! ### Patterns that end before filler -/

theorem stable_among (chars : String) : Stable false (among chars) :=
  .one nofun

theorem stable_except (chars : String) : Stable false (except chars) :=
  .one nofun

theorem settled_among {chars : String} (h : chars.toList.any isFiller = false) :
    Settled (among chars) :=
  .one fun _ hc => isFiller_eq_false_of_any h _ (List.contains_iff_mem.mp hc)

theorem settled_quotedGroup : Settled quotedGroup :=
  .behind (stable_among _) <| .behind (stable_except _).atLeastOne.group <|
    .before (settled_among (by decide)) .empty

theorem stable_modifiers (words : List String) : Stable false (modifiers words) := by
  have hconfined : Stable false (inOrder
      [text "pub", maybe (inOrder [text "(", many (except ")"), text ")"])]) :=
    .next (.text nofun) <| .next (.maybe <| .next (.text nofun) <| .next (stable_except _).many <|
      .next (.text nofun) .empty) .empty
  exact .many (.next (.orElse (.keyword nofun) hconfined) .gap)

/-- Word characters and the given ones. -/
theorem not_filler_of_wordOr {chars : List Char} (h : chars.any isFiller = false) {c : Char}
    (hc : isWord c = true ∨ c ∈ chars) : isFiller c = false :=
  hc.elim isFiller_of_isWord (isFiller_eq_false_of_any h c)

/-- No form of import takes filler for a part of what it captures. -/
theorem settled_importForms : ∀ form ∈ importForms, Settled form := by
  have hdotted : Settled (group (atLeastOne (one fun c => isWord c || c == '.'))) := by
    refine .group (.atLeastOne (.one fun c hc => ?_))
    have hchars : ['.'].any isFiller = false := by decide
    exact not_filler_of_wordOr hchars (by simpa using hc)
  have hscoped : Settled (group (atLeastOne (one fun c => isWord c || c == ':' || c == '\\'))) := by
    refine .group (.atLeastOne (.one fun c hc => ?_))
    have hchars : [':', '\\'].any isFiller = false := by decide
    exact not_filler_of_wordOr hchars (by simpa [or_assoc] using hc)
  simp only [importForms, List.forall_mem_cons, List.not_mem_nil, false_imp_iff, implies_true,
    and_true]
  -- Each form ends with a quote, a name or a word, none of which is in the filler.
  refine ⟨?_, ?_, ?_, ?_, ?_, ?_, ?_, ?_⟩
  · exact .behind .textStart <| .behind .blanks <| .behind (.text nofun) <|
      .behind (.atLeastOne (.one nofun)) <|
      .behind (.group (.next (.many (.text nofun)) (.many (.one nofun)))) <| .behind .gap <|
      .before (.text (by decide) (by decide)) (.next .wordEdge .empty)
  · exact .behind .textStart <| .behind .blanks <| .behind (.keyword nofun) <| .behind .wordEdge <|
      .behind (.many (.one nofun)) <| .behind .wordEdge <| .behind (.text nofun) <|
      .behind .gap <| .before settled_quotedGroup .empty
  · exact .behind .wordEdge <| .behind (.text nofun) <| .behind (.maybe (.keyword nofun)) <|
      .behind .blanks <| .behind (.maybe (.text nofun)) <| .behind .blanks <|
      .before settled_quotedGroup .empty
  · exact .behind .textStart <| .behind .blanks <| .behind (.text nofun) <| .behind .blanks <|
      .behind (.text nofun) <| .behind .blanks <| .behind (stable_among _) <|
      .behind (stable_except _).atLeastOne.group <| .before (settled_among (by decide)) .empty
  · exact .behind .textStart <| .behind .blanks <| .behind (.text nofun) <| .behind .gap <|
      .behind (.maybe (.next (.atLeastOne (.one nofun)) .gap)) <| .behind (.text nofun) <|
      .behind (stable_except _).atLeastOne.group <|
      .before (.text (by decide) (by decide)) .empty
  · exact .behind .textStart <| .behind .blanks <| .behind (.text nofun) <| .behind .gap <|
      .behind (.maybe (.next (.text nofun) .gap)) <| .before hdotted .empty
  · exact .behind .textStart <| .behind .blanks <| .behind (.maybe (.next (.text nofun) .gap)) <|
      .behind (.text nofun) <| .behind .gap <| .behind (.maybe (.text nofun)) <|
      .before hscoped .empty
  · exact .behind .textStart <| .behind .blanks <| .behind (.text nofun) <| .behind .gap <|
      .behind (.maybe (.next (.text nofun) .gap)) <|
      .behind (.group (.atLeastOne (.one nofun))) <| .behind .blanks <|
      .before (.text (by decide) (by decide)) .empty

theorem settled_nameStart : Settled nameStart :=
  .one fun _ hc =>
    isFiller_eq_false (P := fun c => c.isAlpha || c == '_') (by decide +kernel) hc

theorem settled_typeDeclaration : Settled typeDeclaration :=
  .behind .textStart <| .behind .blanks <| .behind (stable_modifiers _) <|
    .behind (.group (.keyword nofun)) <| .behind .gap <|
    .before (.group (.before settled_nameStart (.many (.one fun _ _ => isFiller_of_isWord)))) .empty

theorem settled_functionDeclaration : Settled functionDeclaration :=
  .behind .textStart <| .behind .blanks <| .behind (stable_modifiers _) <|
    .behind (.keyword nofun) <| .behind .gap <|
    .behind (.maybe (.next (.text nofun) <| .next (stable_except _).many <|
      .next (.text nofun) <| .next .blanks .empty)) <|
    .behind (.maybe (.text nofun)) <|
    .before (.group (.before settled_nameStart
      (.next (.many (.one fun _ _ => isFiller_of_isWord))
        (.next (.maybe (settled_among (by decide)).stable) .empty)))) .empty

theorem settled_decision : Settled decision := by
  refine .oneOf ?_
  simp only [List.forall_mem_cons, List.not_mem_nil, false_imp_iff, implies_true, and_true]
  refine ⟨.behind .wordEdge <| .before (.keyword (by decide) (by decide)) (.next .wordEdge .empty),
    .text (by decide) (by decide), .text (by decide) (by decide)⟩

section Needs

variable {P : List Char → Prop} {p q : Matcher}

/-- What a sequence of matchers needs last stands in front of it. -/
theorem needs_of_next (hP : ∀ a b : List Char, a <:+ b → P a → P b)
    (hp : ∀ s, ∀ t ∈ p s, t.rest <:+ s.rest) (hq : ∀ s, ∀ t ∈ q s, P s.rest) :
    ∀ s, ∀ t ∈ next p q s, P s.rest := by
  intro s t ht
  obtain ⟨u, hu, ht⟩ := List.mem_flatMap.mp ht
  exact hP _ _ (hp s u hu) (hq u t ht)

/-- What a matcher needs stands somewhere in a text in which it is found. -/
theorem needs_of_findFrom (hP : ∀ a b : List Char, a <:+ b → P a → P b)
    (hp : ∀ s, ∀ t ∈ p s, P s.rest) {rest : List Char} {last : Option Char} {size : Nat}
    {h : size = rest.length} {t : Place} (hfind : findFrom p last size rest h = some t) :
    P rest := by
  induction rest generalizing last size with
  | nil =>
    rw [findFrom] at hfind
    exact hp _ t (List.mem_of_mem_head? hfind)
  | cons d rest ih =>
    rw [findFrom] at hfind
    split at hfind
    · rename_i u hu
      exact hp _ u (List.mem_of_mem_head? hu)
    · exact hP _ _ (List.suffix_cons d rest) (ih hfind)

theorem captures?_eq_none (hP : ∀ a b : List Char, a <:+ b → P a → P b)
    (hp : ∀ s, ∀ t ∈ p s, P s.rest) {line : List Char} (h : ¬ P line) :
    p.captures? line = none := by
  unfold captures? find?
  cases hfind : findFrom p none line.length line rfl with
  | none => rfl
  | some t => exact absurd (needs_of_findFrom hP hp hfind) h

end Needs

/-- A shell function shows its opening brace. -/
theorem shellFunction_eq_none {line : List Char} (h : '\x7b' ∉ line) :
    shellFunction.captures? line = none := by
  have hbrace : ∀ s, ∀ t ∈ inOrder [text "\x7b"] s, '\x7b' ∈ s.rest := by
    intro s t ht
    obtain ⟨u, hu, -⟩ := List.mem_flatMap.mp ht
    obtain ⟨v, hv, -⟩ := List.mem_flatMap.mp hu
    obtain ⟨c, hc, hrest⟩ := step?_eq_some (Option.mem_toList.mp hv)
    obtain rfl := eq_of_beq hc
    exact hrest ▸ List.mem_cons_self
  have hstart : Stable false textStart := .textStart
  have hblanks := Stable.blanks.forward
  have hname : Stable false (group (next nameStart (many wordChar))) :=
    .group (.next (.one nofun) (.many (.one nofun)))
  have hparens : Stable false (text "()") := .text nofun
  have hback : ∀ a b : List Char, a <:+ b → '\x7b' ∈ a → '\x7b' ∈ b :=
    fun _ _ hsuffix hmem => hsuffix.subset hmem
  refine captures?_eq_none hback ?_ h
  exact needs_of_next hback hstart.forward <| needs_of_next hback hblanks <|
    needs_of_next hback hname.forward <| needs_of_next hback hblanks <|
    needs_of_next hback hparens.forward <| needs_of_next hback hblanks hbrace

/-! ### Keywords that a declaration needs -/

/-- Characters in order leave what stands behind them. -/
theorem rest_of_inOrder_one {cs : List Char} {s t : Place}
    (ht : t ∈ inOrder (cs.map fun c => one (· == c)) s) : s.rest = cs ++ t.rest := by
  induction cs generalizing s with
  | nil =>
    rw [List.mem_singleton.mp ht]
    rfl
  | cons c cs ih =>
    obtain ⟨u, hu, hrest⟩ := List.mem_flatMap.mp ht
    obtain ⟨d, hd, hfirst⟩ := step?_eq_some (Option.mem_toList.mp hu)
    obtain rfl := eq_of_beq hd
    rw [hfirst, ih hrest, List.cons_append]

def SpellsOne (words : List String) (s : List Char) : Prop :=
  ∃ word ∈ words, ∀ c ∈ word.toList, c ∈ s

theorem SpellsOne.mono {words : List String} {s s' : List Char} (h : s ⊆ s')
    (hs : SpellsOne words s) : SpellsOne words s' := by
  obtain ⟨word, hword, hletters⟩ := hs
  exact ⟨word, hword, fun c hc => h (hletters c hc)⟩

theorem spellsOne_of_keyword {words : List String} {s t : Place} (ht : t ∈ keyword words s) :
    SpellsOne words s.rest := by
  obtain ⟨p, hp, ht⟩ := List.mem_flatMap.mp ht
  obtain ⟨word, hword, rfl⟩ := List.mem_map.mp hp
  refine ⟨word, hword, fun c hc => ?_⟩
  rw [rest_of_inOrder_one ht]
  exact List.mem_append_left _ hc

def typeKeywords : List String :=
  ["class", "struct", "interface", "trait", "enum", "module", "object", "record", "protocol",
    "namespace"]

def functionKeywords : List String :=
  ["def", "fn", "func", "fun", "function", "sub"]

/-- A line that lacks the letters of every type keyword declares no type. -/
theorem typeDeclaration_eq_none {line : List Char} (h : ¬ SpellsOne typeKeywords line) :
    typeDeclaration.captures? line = none := by
  have hback : ∀ a b : List Char, a <:+ b → SpellsOne typeKeywords a → SpellsOne typeKeywords b :=
    fun _ _ hsuffix => SpellsOne.mono hsuffix.subset
  have hstart : Stable false textStart := .textStart
  have hkeyword : ∀ s, ∀ t ∈ inOrder [group (keyword typeKeywords), gap,
      group (next nameStart (many wordChar))] s, SpellsOne typeKeywords s.rest := by
    intro s t ht
    obtain ⟨u, hu, -⟩ := List.mem_flatMap.mp ht
    obtain ⟨v, hv, -⟩ := List.mem_map.mp hu
    exact spellsOne_of_keyword hv
  refine captures?_eq_none hback ?_ h
  exact needs_of_next hback hstart.forward <| needs_of_next hback Stable.blanks.forward <|
    needs_of_next hback (stable_modifiers _).forward hkeyword

/-- A line that lacks the letters of every function keyword declares no function. -/
theorem functionDeclaration_eq_none {line : List Char} (h : ¬ SpellsOne functionKeywords line) :
    functionDeclaration.captures? line = none := by
  have hback : ∀ a b : List Char, a <:+ b →
      SpellsOne functionKeywords a → SpellsOne functionKeywords b :=
    fun _ _ hsuffix => SpellsOne.mono hsuffix.subset
  have hstart : Stable false textStart := .textStart
  have hkeyword : ∀ s, ∀ t ∈ inOrder [keyword functionKeywords, gap,
      maybe (inOrder [text "(", many (except ")"), text ")", blanks]), maybe (text "self."),
      group (inOrder [nameStart, many wordChar, maybe (among "!?")])] s,
      SpellsOne functionKeywords s.rest := by
    intro s t ht
    obtain ⟨u, hu, -⟩ := List.mem_flatMap.mp ht
    exact spellsOne_of_keyword hu
  refine captures?_eq_none hback ?_ h
  exact needs_of_next hback hstart.forward <| needs_of_next hback Stable.blanks.forward <|
    needs_of_next hback (stable_modifiers _).forward hkeyword

/-- A line that ends a scope declares nothing. -/
theorem declaration?_of_closer {line : List Char} (h : trim line ∈ closers) :
    declaration? line = none := by
  -- Behind blanks there is not enough in the line to write a keyword or a brace.
  have hletters : ∀ c ∈ line, isBlank c = true ∨ c ∈ trim line := by
    obtain ⟨lead, trail, hlead, htrail, heq⟩ := exists_eq_trim line
    intro c hc
    rw [heq, List.mem_append, List.mem_append] at hc
    exact hc.elim (fun hc => .inl (hlead c hc)) (Or.elim · .inr fun hc => .inl (htrail c hc))
  have hword : ∀ words : List String, (closers.all fun closer => words.all fun word =>
      word.toList.any fun c => !(isBlank c || closer.contains c)) = true →
      ¬ SpellsOne words line := by
    rintro words hwords ⟨word, hmem, hspells⟩
    have hclear := List.all_eq_true.mp (List.all_eq_true.mp hwords _ h) word hmem
    obtain ⟨c, hc, hnot⟩ := List.any_eq_true.mp hclear
    rw [Bool.not_eq_true', Bool.or_eq_false_iff] at hnot
    rcases hletters c (hspells c hc) with hblank | hcloser
    · rw [hnot.1] at hblank
      cases hblank
    · rw [← List.contains_iff_mem, hnot.2] at hcloser
      cases hcloser
  have hbrace : '\x7b' ∉ line := by
    intro hmem
    have hclosers : ∀ closer ∈ closers, '\x7b' ∉ closer := by decide
    exact (hletters _ hmem).elim (by decide) (hclosers _ h)
  rw [declaration?, typeDeclaration_eq_none (hword typeKeywords (by decide)),
    functionDeclaration_eq_none (hword functionKeywords (by decide)), shellFunction_eq_none hbrace]
  rfl

/-! ### Lines with filler behind them -/

section

variable {ext : List Char} (hext : ∀ c ∈ ext, isFiller c = true)
include hext

/-- Filler at the end of a line changes no import. -/
theorem import?_append (f : SourceFile) (s : List Char) : import? f (s ++ ext) = import? f s := by
  have hforms : ∀ forms : List Matcher, (∀ form ∈ forms, Settled form) →
      forms.findSome? (fun form => form.captures? (s ++ ext)) =
        forms.findSome? fun form => form.captures? s := by
    intro forms hsettled
    induction forms with
    | nil => rfl
    | cons form forms ih =>
      rw [List.findSome?_cons, List.findSome?_cons,
        (hsettled form List.mem_cons_self).captures?_append hext,
        ih fun f hf => hsettled f (List.mem_cons_of_mem form hf)]
  unfold import?
  rw [hforms importForms settled_importForms]

/-- Filler at the end of a line makes no comment of it. -/
theorem isLineComment_append (language : Language) (line : List Char) :
    isLineComment language (line ++ ext) = isLineComment language line := by
  have hmarks : ∀ mark ∈ (commentMarks language).1, mark.toList.any isFiller = false := by
    cases language <;> decide
  have hbegins (mark : String) (hmark : mark.toList.any isFiller = false) :
      mark.toList.isPrefixOf (line ++ ext) = mark.toList.isPrefixOf line := by
    rw [Bool.eq_iff_iff, List.isPrefixOf_iff_prefix, List.isPrefixOf_iff_prefix,
      prefix_append_iff hext (isFiller_eq_false_of_any hmark)]
  have hany : (commentMarks language).1.any (fun mark => mark.toList.isPrefixOf (line ++ ext)) =
      (commentMarks language).1.any fun mark => mark.toList.isPrefixOf line := by
    rw [Bool.eq_iff_iff, List.any_eq_true, List.any_eq_true]
    refine exists_congr fun mark => and_congr_right fun hmark => ?_
    rw [hbegins mark (hmarks mark hmark)]
  rw [isLineComment, isLineComment, hbegins "#include" (by decide), hany]

theorem decisionsOf_append (line : List Char) : decisionsOf (line ++ ext) = decisionsOf line :=
  congrArg List.length (settled_decision.findAll_append hext none line)

theorem decisionsOf_filler : decisionsOf ext = 0 :=
  congrArg List.length (settled_decision.solid.findAll_filler hext none)

/-- A declaration is the same with its opening brace behind it. -/
theorem declaration?_append {line : List Char} (hbrace : '\x7b' ∉ line)
    {d : String × SymbolKind} (h : declaration? line = some d) :
    declaration? (line ++ ext) = some d := by
  unfold declaration? at h ⊢
  rw [settled_typeDeclaration.captures?_append hext,
    settled_functionDeclaration.captures?_append hext]
  rw [shellFunction_eq_none hbrace] at h
  -- The pattern of shell functions, which wants to see the brace, is only tried after the others.
  cases hfunction : functionDeclaration.captures? line with
  | some groups =>
    rw [hfunction] at h
    exact h
  | none =>
    rw [hfunction] at h
    split at h
    · exact h
    · cases h

theorem declaration?_filler : declaration? ext = none := by
  have hstart : Stable false textStart := .textStart
  have hname : Solid (group (next nameStart (many wordChar))) :=
    (Settled.group (.before settled_nameStart (.many (.one fun _ _ => isFiller_of_isWord)))).solid
  have hshell : Solid shellFunction :=
    .behind hstart <| .behind .blanks <| .before hname
  rw [declaration?, settled_typeDeclaration.solid.captures?_filler hext,
    settled_functionDeclaration.solid.captures?_filler hext, hshell.captures?_filler hext]
  rfl

end

end CodeAtlas.Outline
